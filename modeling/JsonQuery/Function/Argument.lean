import JsonQuery.EvalError
import JsonQuery.Expr.Outline
import JsonQuery.Json.Writer

namespace JsonQuery

-- An expression argument carries its own evaluation, which keeps the root and the
-- variables of the place where it was written.
inductive Argument where
  | value (v : Json)
  | expression (e : Expr) (evaluate : Json → Except EvalError Json)

namespace Argument

def form : Argument → ArgumentForm
  | .value v => .value v.kind
  | .expression .. => .expression

def value? : Argument → Option Json
  | .value v => some v
  | .expression .. => none

def evaluate? : Argument → Option (Json → Except EvalError Json)
  | .value _ => none
  | .expression _ evaluate => some evaluate

def accepts (types : List ParameterType) (argument : Argument) : Bool :=
  types.any fun type =>
    match argument with
    | .value v => type.acceptsValue v
    | .expression .. => type == .expression

end Argument

mutual
def Json.outline : Json → Outline
  | .null => .text "Null"
  | .bool b => .tuple "Bool" [.text (toString b)]
  | .number n => .tuple "Number" [.text (Json.numericText n)]
  | .string s => .tuple "String" [.string s]
  | .array elements => .list "Array " (outlineElements elements)
  | .object entries => .table "Object " (outlineEntries entries)
termination_by structural v => v

def outlineElements : List Json → List Outline
  | [] => []
  | v :: vs => v.outline :: outlineElements vs
termination_by structural vs => vs

def outlineEntries : List (String × Json) → List (String × Outline)
  | [] => []
  | (key,v) :: es => (Outline.quote key,v.outline) :: outlineEntries es
termination_by structural es => es
end

def Argument.outline : Argument → Outline
  | .value v => .tuple "Value" [v.outline]
  | .expression e _ => .tuple "ExpressionRef" [e.outline]

-- For the body of a function, which sees its arguments after they were checked: these
-- fail only where a signature promises less than the body takes.
namespace Arguments

def value (arguments : List Argument) (index : Nat) : Except EvalError Json :=
  match arguments[index]?.bind Argument.value? with
  | some v => .ok v
  | none => .error (.type (.wanted (index + 1) .value))

def expression (arguments : List Argument) (index : Nat) :
    Except EvalError (Json → Except EvalError Json) :=
  match arguments[index]?.bind Argument.evaluate? with
  | some evaluate => .ok evaluate
  | none => .error (.type (.wanted (index + 1) .expression))

def number (arguments : List Argument) (index : Nat) : Except EvalError Number.Binary64 := do
  match (← value arguments index).asNumber? with
  | some x => return x
  | none => .error (.type (.wanted (index + 1) .number))

def string (arguments : List Argument) (index : Nat) : Except EvalError String := do
  match (← value arguments index).asString? with
  | some s => return s
  | none => .error (.type (.wanted (index + 1) .string))

end Arguments
end JsonQuery
