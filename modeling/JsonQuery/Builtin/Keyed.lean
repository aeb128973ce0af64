import JsonQuery.Function.Argument
import JsonQuery.Json.Sorting

namespace JsonQuery.Builtin

-- Every element with its key. Keys are numbers or strings and all of one kind; the
-- first element that breaks this is the one told about.
def keyed (function : String) (evaluate : Json → Except EvalError Json) :
    Option Kind → List Json → Except EvalError (List (Json × Json))
  | _, [] => .ok []
  | expected, element :: rest => do
    let key ← evaluate element
    if key.kind = .number ∨ key.kind = .string then
      match expected with
      | some first =>
        if first = key.kind then
          return (key,element) :: (← keyed function evaluate expected rest)
        else .error (.type (.keyKinds function first key.kind))
      | none => return (key,element) :: (← keyed function evaluate (some key.kind) rest)
    else .error (.type (.keyKind function key.kind))

def keyedArguments (function : String) (arguments : List Argument) :
    Except EvalError (List (Json × Json)) := do
  let subject ← Arguments.value arguments 0
  let evaluate ← Arguments.expression arguments 1
  keyed function evaluate none subject.elements

def sortByBody (arguments : List Argument) : Except EvalError Json := do
  let pairs ← keyedArguments "sort_by" arguments
  return .array ((Json.sortOn (·.1) pairs).map (·.2))

def extremeByBody (function : String) (wins : Ordering) (arguments : List Argument) :
    Except EvalError Json := do
  let pairs ← keyedArguments function arguments
  return ((Json.extremeOn wins (·.1) pairs).map (·.2)).getD .null

-- Null results stay, unlike in a projection.
def mapBody (arguments : List Argument) : Except EvalError Json := do
  let evaluate ← Arguments.expression arguments 0
  let subject ← Arguments.value arguments 1
  return .array (← subject.elements.mapM evaluate)

end JsonQuery.Builtin
