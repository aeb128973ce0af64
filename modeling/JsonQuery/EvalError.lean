import JsonQuery.Function.Parameter

namespace JsonQuery

-- How many arguments a function takes; without `most` there is no end.
structure Arity where
  least : Nat
  most : Option Nat
deriving DecidableEq

namespace Arity

def admits (a : Arity) (count : Nat) : Bool :=
  a.least ≤ count && (match a.most with
    | some most => count ≤ most
    | none => true)

def describe (a : Arity) : String :=
  match a.most with
  | none => "at least " ++ toString a.least
  | some most =>
    if most = a.least then toString a.least else toString a.least ++ " to " ++ toString most

end Arity

-- What stands at an argument position.
inductive ArgumentForm where
  | value (kind : Kind)
  | expression
deriving DecidableEq

def ArgumentForm.name : ArgumentForm → String
  | .value kind => kind.name
  | .expression => "expression"

-- What the body of a function asked of one argument.
inductive Wanted where
  | value | expression | number | string
deriving DecidableEq

def Wanted.describe : Wanted → String
  | .value => "a value"
  | .expression => "an expression"
  | .number => "a number"
  | .string => "a string"

-- Positions count from one.
inductive TypeFault where
  | argument (function : String) (position : Nat) (types : List ParameterType) (actual : ArgumentForm)
  | wanted (position : Nat) (what : Wanted)
  | keyKind (function : String) (kind : Kind)
  | keyKinds (function : String) (first kind : Kind)
  | other (text : String)
deriving DecidableEq

def TypeFault.describe : TypeFault → String
  | .argument function position types actual =>
    function ++ "() argument " ++ toString position ++ " must be " ++ Parameter.describe types
      ++ ", got " ++ actual.name
  | .wanted position what => "argument " ++ toString position ++ " must be " ++ what.describe
  | .keyKind function kind =>
    function ++ "() keys must be numbers or strings, got " ++ kind.name
  | .keyKinds function first kind =>
    function ++ "() keys must all have the same type, got " ++ first.name ++ " and " ++ kind.name
  | .other text => text

inductive ValueFault where
  | zeroStep
  | literal (text : String)
  | other (text : String)
deriving DecidableEq

def ValueFault.describe : ValueFault → String
  | .zeroStep => "slice step cannot be 0"
  | .literal text => "invalid JSON literal \x60" ++ text ++ "\x60"
  | .other text => text

-- A missing property, an index out of range or an operation on another kind of value is
-- no error: it gives null.
inductive EvalError where
  | arity (function : String) (takes : Arity) (actual : Nat)
  | type (fault : TypeFault)
  | unknownFunction (name : String)
  | value (fault : ValueFault)
deriving DecidableEq

def EvalError.describe : EvalError → String
  | .arity function takes actual =>
    "invalid arity: " ++ function ++ "() takes " ++ takes.describe ++ " argument(s), got "
      ++ toString actual
  | .type fault => "invalid type: " ++ fault.describe
  | .unknownFunction name => "unknown function: " ++ name ++ "()"
  | .value fault => "invalid value: " ++ fault.describe

-- The classes of failure, by the names that compliance tests use.
inductive ErrorKind where
  | malformed | arity | type | unknownFunction | value
deriving DecidableEq

def ErrorKind.name : ErrorKind → String
  | .malformed => "syntax"
  | .arity => "invalid-arity"
  | .type => "invalid-type"
  | .unknownFunction => "unknown-function"
  | .value => "invalid-value"

def EvalError.kind : EvalError → ErrorKind
  | .arity .. => .arity
  | .type _ => .type
  | .unknownFunction _ => .unknownFunction
  | .value _ => .value

end JsonQuery
