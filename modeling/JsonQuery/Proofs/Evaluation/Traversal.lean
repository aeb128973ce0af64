import JsonQuery.Evaluation

namespace JsonQuery
open Evaluation

-- One argument of a call: a reference is kept with the scope, all else is evaluated.
def Expr.evalArgument (setting : Setting) (e : Expr) (v : Json) (scope : Scope Json) :
    Except EvalError Argument :=
  match e with
  | .reference inner => .ok (.expression inner fun element => inner.eval setting element scope)
  | e => return .value (← e.eval setting v scope)

section
variable (setting : Setting) (v : Json) (scope : Scope Json)

theorem evalList_mapM (es : List Expr) :
    evalList setting es v scope = es.mapM fun e => e.eval setting v scope := by
  induction es with
  | nil => rfl
  | cons e es ih => rw [evalList,ih,List.mapM_cons]

theorem evalPairs_mapM (es : List (String × Expr)) :
    evalPairs setting es v scope =
      es.mapM fun entry => do return (entry.1,← entry.2.eval setting v scope) := by
  induction es with
  | nil => rfl
  | cons entry es ih => rw [evalPairs,ih,List.mapM_cons]; simp only [bind_assoc,pure_bind]

theorem evalArguments_mapM (es : List Expr) :
    evalArguments setting es v scope = es.mapM fun e => e.evalArgument setting v scope := by
  induction es with
  | nil => rfl
  | cons e es ih =>
      rw [List.mapM_cons,← ih]
      cases e with
      | reference inner => rfl
      | _ => simp only [evalArguments,Expr.evalArgument,bind_assoc,pure_bind]

end

section
variable (run : Json → Except EvalError Json) (elements : List Json)

theorem foldlM_collect (collected : Array Json) : elements.foldlM (collect run) collected = do
    let results ← elements.mapM run
    return collected ++ (results.filter fun v => !v.isNull).toArray := by
  induction elements generalizing collected with
  | nil => exact congrArg Except.ok (Array.append_empty).symm
  | cons element rest ih =>
      rw [List.foldlM_cons,List.mapM_cons,collect,bind_assoc,bind_assoc]
      cases run element with
      | error e => rfl
      | ok result =>
          refine (ih _).trans ?_
          cases rest.mapM run with
          | error e => rfl
          | ok results =>
              cases null : result.isNull <;> simp [bind,Except.bind,pure,Except.pure,null]

-- Nothing is lost by dropping each null where it turns up.
theorem project_mapM : project run elements = do
    let results ← elements.mapM run
    return .array (results.filter fun v => !v.isNull) := by
  rw [project,foldlM_collect,bind_assoc]
  simp only [pure_bind,Array.empty_append]

end
end JsonQuery
