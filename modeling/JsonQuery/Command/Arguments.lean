import JsonQuery.Command.Basic

namespace JsonQuery

-- What has been read of the arguments of `search`; each may come once, in any order.
structure SearchArguments where
  expression : Option String
  input : Option String
  pretty : Bool
  checkOnly : Bool
  silent : Bool

namespace SearchArguments

def none : SearchArguments := ⟨.none,.none,false,false,false⟩

def withExpression (a : SearchArguments) (s : String) : Option SearchArguments :=
  if a.expression.isNone then some { a with expression := some s } else .none

def withInput (a : SearchArguments) (s : String) : Option SearchArguments :=
  if a.input.isNone then some { a with input := some s } else .none

def withFlag (a : SearchArguments) (name : String) : Option SearchArguments :=
  match name with
  | "pretty" => if a.pretty then .none else some { a with pretty := true }
  | "syntax-only" => if a.checkOnly then .none else some { a with checkOnly := true }
  | "silent-type-errors" => if a.silent then .none else some { a with silent := true }
  | _ => .none

def toCommand (a : SearchArguments) : Option Command :=
  a.expression.map fun e => .search e a.input a.pretty a.checkOnly a.silent

end SearchArguments

namespace Command

-- A value of its own does not look like an option; a lone dash does not.
def isPlain (argument : String) : Bool :=
  match argument.toList with
  | '-' :: _ :: _ => false
  | _ => true

-- The letters behind one dash: flags, then at most one option, whose value is the rest
-- of the argument or else the next one. `true` asks for the next.
def readLetters (a : SearchArguments) : List Char → Option (SearchArguments × Bool)
  | [] => some (a,false)
  | 'p' :: rest => do readLetters (← a.withFlag "pretty") rest
  | 'i' :: [] => some (a,true)
  | 'i' :: '=' :: value => do return (← a.withInput (String.ofList value),false)
  | 'i' :: value => do return (← a.withInput (String.ofList value),false)
  | _ => none

def readLong (a : SearchArguments) (name : List Char) (value : Option (List Char)) :
    Option (SearchArguments × Bool) :=
  match String.ofList name, value with
  | "input", some value => do return (← a.withInput (String.ofList value),false)
  | "input", none => some (a,true)
  | flag, none => do return (← a.withFlag flag,false)
  | _, some _ => none

def splitValue (text : List Char) : List Char × Option (List Char) :=
  match text.dropWhile (· != '=') with
  | '=' :: value => (text.takeWhile (· != '='),some value)
  | _ => (text,none)

def readOption (a : SearchArguments) (argument : List Char) : Option (SearchArguments × Bool) :=
  match argument with
  | '-' :: '-' :: text => readLong a (splitValue text).1 (splitValue text).2
  | '-' :: letters => readLetters a letters
  | _ => none

def readPositional (a : SearchArguments) : List String → Option SearchArguments
  | [] => some a
  | argument :: rest => do readPositional (← a.withExpression argument) rest

-- `wanting` says that the option before still has no value. Behind two dashes nothing
-- is an option any more.
def readSearch (a : SearchArguments) (wanting : Bool) : List String → Option SearchArguments
  | [] => if wanting then none else some a
  | argument :: rest =>
    if wanting then
      if isPlain argument then do readSearch (← a.withInput argument) false rest else none
    else if isPlain argument then do readSearch (← a.withExpression argument) false rest
    else if argument = "--" then readPositional a rest
    else do
      let (a,wanting) ← readOption a argument.toList
      readSearch a wanting rest

def readTree : List String → Option Command
  | [argument] => if isPlain argument then some (.tree argument) else none
  | ["--",argument] => some (.tree argument)
  | [argument,"--"] => if isPlain argument then some (.tree argument) else none
  | _ => none

-- Nothing is said about why arguments are refused; the program's usage is all there is.
def ofArguments : List String → Option Command
  | "search" :: rest => do (← readSearch .none false rest).toCommand
  | "ast" :: rest => readTree rest
  | _ => none

def usage : String :=
  "usage: search EXPRESSION [--input JSON] [--pretty] [--syntax-only] [--silent-type-errors]\n"
    ++ "       ast EXPRESSION"

end Command
end JsonQuery
