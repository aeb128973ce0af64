import JsonQuery.Function.Argument

namespace JsonQuery

-- Parameters by position, then whatever the variadic types accept, without end.
structure Signature where
  parameters : List Parameter
  variadicTypes : Option (List ParameterType)

namespace Signature

def empty : Signature := ⟨[],none⟩

def arg (s : Signature) (types : List ParameterType) : Signature :=
  { s with parameters := s.parameters ++ [⟨types,false⟩] }

def optionalArg (s : Signature) (types : List ParameterType) : Signature :=
  { s with parameters := s.parameters ++ [⟨types,true⟩] }

def variadic (s : Signature) (types : List ParameterType) : Signature :=
  { s with variadicTypes := some types }

-- A required parameter behind an optional one does not raise the least count.
def arity (s : Signature) : Arity :=
  ⟨(s.parameters.takeWhile fun p => !p.optional).length,
    match s.variadicTypes with
    | some _ => none
    | none => some s.parameters.length⟩

def typesAt? (s : Signature) (index : Nat) : Option (List ParameterType) :=
  match s.parameters[index]? with
  | some p => some p.types
  | none => s.variadicTypes

-- The first argument that its parameter does not accept.
def checkTypes (s : Signature) (function : String) (index : Nat) :
    List Argument → Except EvalError Unit
  | [] => .ok ()
  | argument :: rest =>
    match s.typesAt? index with
    | none => .ok ()
    | some types =>
      if argument.accepts types then checkTypes s function (index + 1) rest
      else .error (.type (.argument function (index + 1) types argument.form))

-- The count first, whatever the types are.
def validate (s : Signature) (function : String) (arguments : List Argument) :
    Except EvalError Unit :=
  if s.arity.admits arguments.length then s.checkTypes function 0 arguments
  else .error (.arity function s.arity arguments.length)

def outline (s : Signature) : Outline :=
  .record "Signature"
    [("parameters",.list "" (s.parameters.map (·.outline))),
      ("variadic",.option (fun types => (Parameter.mk types true).outline) s.variadicTypes)]
    false

end Signature
end JsonQuery
