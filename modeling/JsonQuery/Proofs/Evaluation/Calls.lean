import JsonQuery.Proofs.Evaluation.Traversal
import JsonQuery.Proofs.Function.Call
import JsonQuery.Proofs.Function.Registry
import JsonQuery.Proofs.Outcome

namespace JsonQuery
namespace Expr
section
variable {setting : Setting} {e : Expr} {v given : Json} {scope : Scope Json}

theorem evalArgument_value (evaluated : e.evalArgument setting v scope = .ok (.value given)) :
    e.eval setting v scope = .ok given := by
  unfold Expr.evalArgument at evaluated
  split at evaluated
  · cases evaluated
  · obtain ⟨_,first,made⟩ := bind_ok.mp evaluated
    cases made
    exact first

-- A reference by itself is null, so what is not null is no reference's.
theorem evalArgument_given (evaluated : e.eval setting v scope = .ok given) (present : given.isNull = false) :
    e.evalArgument setting v scope = .ok (.value given) := by
  unfold Expr.evalArgument
  split
  · cases evaluated
    cases present
  · rw [evaluated]
    rfl

theorem arguments_given {es : List Expr} {vs : List Json}
    (evaluated : List.Forall₂ (fun e given => e.eval setting v scope = .ok given) es vs)
    (present : ∀ given ∈ vs, given.isNull = false) :
    es.mapM (fun e => e.evalArgument setting v scope) = .ok (vs.map .value) := by
  refine mapM_forall₂.mpr ?_
  induction evaluated with
  | nil => exact .nil
  | cons first _ ih =>
      obtain ⟨one,more⟩ := List.forall_mem_cons.mp present
      exact .cons (evalArgument_given first one) (ih more)

end

theorem eval_builtin (b : Builtin) (arguments : List Expr) (silent : Bool) (root v : Json) (scope : Scope Json) :
    (Expr.call b.name arguments).eval ⟨.builtins,silent,root⟩ v scope =
      arguments.mapM (fun e => e.evalArgument ⟨.builtins,silent,root⟩ v scope) >>= fun values =>
        b.function.call silent values v := by
  have found : Registry.builtins.get? b.name = some b.function := Registry.get?_builtins_some.mpr ⟨b,rfl,rfl⟩
  simp only [Expr.eval,found,evalArguments_mapM]

end Expr
end JsonQuery
