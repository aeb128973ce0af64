import JsonQuery.Function.Registry
import JsonQuery.Json.Order
import JsonQuery.Json.Reader
import JsonQuery.Scope

namespace JsonQuery

-- What stays the same all through one evaluation.
structure Setting where
  registry : Registry
  silent : Bool
  root : Json

namespace Evaluation

def compareValues (op : Comparison) (left right : Json) : Json :=
  match op with
  | .equal => .bool (left.equals right)
  | .notEqual => .bool (!left.equals right)
  | .less => ordered fun o => o == .lt
  | .lessEqual => ordered fun o => o != .gt
  | .greater => ordered fun o => o == .gt
  | .greaterEqual => ordered fun o => o != .lt
where
  ordered (test : Ordering → Bool) : Json :=
    match left.compare? right with
    | some o => .bool (test o)
    | none => .null

-- The step is looked at before the value: zero is refused even where nothing is sliced.
def sliceValue (s : Slice) (v : Json) : Except EvalError Json :=
  let step := s.step.getD 1
  if step = 0 then .error (.value .zeroStep)
  else match v with
    | .array elements => .ok (.array (Json.sliceElements elements s step))
    | _ => .ok .null

-- Results that are null are dropped.
def collect (run : Json → Except EvalError Json) (collected : Array Json) (element : Json) :
    Except EvalError (Array Json) := do
  let result ← run element
  return if result.isNull then collected else collected.push result

def project (run : Json → Except EvalError Json) (elements : List Json) : Except EvalError Json := do
  let collected ← elements.foldlM (collect run) #[]
  return .array collected.toList

def keepWhere (test : Json → Except EvalError Json) : List Json → Except EvalError (List Json)
  | [] => .ok []
  | v :: vs => do
    let verdict ← test v
    let kept ← keepWhere test vs
    return if verdict.truthy then v :: kept else kept

def readLiteral (text : String) : Except EvalError Json :=
  match Json.read text with
  | some v => .ok v
  | none => .error (.value (.literal text))

end Evaluation

open Evaluation

-- A call looks its function up before any argument is evaluated. A reference is an
-- argument or nothing: anywhere else it is null.
mutual
def Expr.eval (setting : Setting) : Expr → Json → Scope Json → Except EvalError Json
  | .current, v, _ => .ok v
  | .root, _, _ => .ok setting.root
  | .variable name, _, scope => .ok ((scope.get? name).getD .null)
  | .field name, v, _ => .ok ((v.property? name).getD .null)
  | .index i, v, _ => .ok (v.atIndex i)
  | .slice s, v, _ => sliceValue s v
  | .within left right, v, scope => do
    let base ← left.eval setting v scope
    right.eval setting base scope
  | .flatten e, v, scope => do
    let base ← e.eval setting v scope
    return base.flatten
  | .projectArray left rest, v, scope => do
    match ← left.eval setting v scope with
    | .array elements => project (fun element => evalRest setting rest element scope) elements
    | _ => return .null
  | .projectObject left rest, v, scope => do
    match ← left.eval setting v scope with
    | .object entries =>
      project (fun element => evalRest setting rest element scope) (entries.map (·.2))
    | _ => return .null
  | .filter left condition rest, v, scope => do
    match ← left.eval setting v scope with
    | .array elements =>
      let kept ← keepWhere (fun element => condition.eval setting element scope) elements
      project (fun element => evalRest setting rest element scope) kept
    | _ => return .null
  | .pipe left right, v, scope => do
    let base ← left.eval setting v scope
    right.eval setting base scope
  | .or left right, v, scope => do
    let first ← left.eval setting v scope
    if first.truthy then return first else right.eval setting v scope
  | .and left right, v, scope => do
    let first ← left.eval setting v scope
    if first.truthy then right.eval setting v scope else return first
  | .not e, v, scope => do
    let inner ← e.eval setting v scope
    return .bool (!inner.truthy)
  | .compare op left right, v, scope => do
    let first ← left.eval setting v scope
    let second ← right.eval setting v scope
    return compareValues op first second
  | .list elements, v, scope =>
    if v.isNull then .ok .null
    else do
      let values ← evalList setting elements v scope
      return .array values
  | .hash entries, v, scope =>
    if v.isNull then .ok .null
    else do
      let pairs ← evalPairs setting entries v scope
      return .ofPairs pairs
  | .call name arguments, v, scope =>
    match setting.registry.get? name with
    | none => .error (.unknownFunction name)
    | some f => do
      let values ← evalArguments setting arguments v scope
      f.call setting.silent values v
  | .reference _, _, _ => .ok .null
  | .literal text, _, _ => readLiteral text
  | .rawString s, _, _ => .ok (.string s)
  | .letIn bindings body, v, scope => do
    let inner ← evalBindings setting bindings v (.child scope)
    body.eval setting v inner
termination_by structural e => e

-- Nothing behind a projection leaves its elements as they are.
def evalRest (setting : Setting) : Option Expr → Json → Scope Json → Except EvalError Json
  | none, v, _ => .ok v
  | some e, v, scope => e.eval setting v scope
termination_by structural e => e

def evalList (setting : Setting) :
    List Expr → Json → Scope Json → Except EvalError (List Json)
  | [], _, _ => .ok []
  | e :: es, v, scope => do
    let first ← e.eval setting v scope
    let rest ← evalList setting es v scope
    return first :: rest
termination_by structural es => es

def evalPairs (setting : Setting) :
    List (String × Expr) → Json → Scope Json → Except EvalError (List (String × Json))
  | [], _, _ => .ok []
  | (key,e) :: es, v, scope => do
    let first ← e.eval setting v scope
    let rest ← evalPairs setting es v scope
    return (key,first) :: rest
termination_by structural es => es

-- An expression argument keeps the scope of the call.
def evalArguments (setting : Setting) :
    List Expr → Json → Scope Json → Except EvalError (List Argument)
  | [], _, _ => .ok []
  | .reference e :: es, v, scope => do
    let rest ← evalArguments setting es v scope
    return .expression e (fun element => e.eval setting element scope) :: rest
  | e :: es, v, scope => do
    let first ← e.eval setting v scope
    let rest ← evalArguments setting es v scope
    return .value first :: rest
termination_by structural es => es

-- Each binding sees those before it.
def evalBindings (setting : Setting) :
    List (String × Expr) → Json → Scope Json → Except EvalError (Scope Json)
  | [], _, scope => .ok scope
  | (name,e) :: bs, v, scope => do
    let value ← e.eval setting v scope
    evalBindings setting bs v (.bind name value scope)
termination_by structural bs => bs
end

end JsonQuery
