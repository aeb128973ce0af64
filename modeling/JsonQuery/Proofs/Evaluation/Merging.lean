import JsonQuery.Proofs.Builtin.Merging
import JsonQuery.Proofs.Evaluation.Calls
import JsonQuery.Proofs.Function.Signature
import JsonQuery.Proofs.Outcome

namespace JsonQuery

-- Every argument in its turn, as many as there are.
theorem mapM_values (vs : List Json) :
    (List.range vs.length).mapM (Arguments.value (vs.map .value)) = .ok vs := by
  refine mapM_forall₂.mpr (List.forall₂_iff_get.mpr ⟨List.length_range,fun i _ inside => ?_⟩)
  rw [List.get_eq_getElem,List.getElem_range,Arguments.value,List.getElem?_map,List.getElem?_eq_getElem inside]
  rfl

namespace Builtin

theorem merge_called {objects : List Json} (filled : objects ≠ []) (kinds : ∀ o ∈ objects, o.kind = .object)
    (silent : Bool) (v : Json) : merge.function.call silent (objects.map .value) v = .ok (mergeBody objects) := by
  have admitted : merge.signature.arity.admits (objects.map Argument.value).length = true := by
    have least : 1 ≤ (objects.map Argument.value).length := by
      rw [List.length_map]
      exact List.length_pos_iff.mpr filled
    exact (Bool.and_true _).trans (decide_eq_true least)
  have asked (i : Nat) : merge.signature.typesAt? i = some [.object] := by
    cases i <;> rfl
  have given : merge.body (objects.map .value) = .ok (mergeBody objects) := by
    have all := mapM_values objects
    rw [body,List.length_map,all]
    rfl
  refine Function.call_answers (Signature.validate_ok.mpr ⟨admitted,fun i x types present declared => ?_⟩) given silent
  obtain ⟨o,member,rfl⟩ := List.mem_map.mp (List.mem_of_getElem? present)
  obtain rfl : [.object] = types := Option.some.inj ((asked i).symm.trans declared)
  simp [Argument.accepts,ParameterType.acceptsValue,kinds o member]

end Builtin

section
variable {silent : Bool} {root v : Json} {scope : Scope Json}

theorem eval_mergeBody {es : List Expr} {objects : List Json} (filled : es ≠ [])
    (evaluated : List.Forall₂ (fun e o => e.eval ⟨.builtins,silent,root⟩ v scope = .ok o) es objects)
    (kinds : ∀ o ∈ objects, o.kind = .object) :
    (Expr.call "merge" es).eval ⟨.builtins,silent,root⟩ v scope = .ok (Builtin.mergeBody objects) := by
  have some : objects ≠ [] := by
    rintro rfl
    cases evaluated
    exact filled rfl
  have present (o : Json) (member : o ∈ objects) : o.isNull = false := by
    have kind := kinds o member
    cases o with
    | null => cases kind
    | _ => rfl
  refine (Expr.eval_builtin .merge es silent root v scope).trans ?_
  rw [Expr.arguments_given evaluated present]
  exact Builtin.merge_called some kinds silent v

end

-- A key stands where it first appears, under it the value of the last object that has it, and how
-- the objects are grouped does not matter.
theorem Expr.eval_merge {es : List Expr} {objects : List Json} (silent : Bool) (root v : Json) (scope : Scope Json)
    (filled : es ≠ [])
    (evaluated : List.Forall₂ (fun e o => e.eval ⟨.builtins,silent,root⟩ v scope = .ok o) es objects)
    (formed : ∀ o ∈ objects, o.kind = .object ∧ o.keys.Nodup) :
    let merge (es : List Expr) := (Expr.call "merge" es).eval ⟨.builtins,silent,root⟩ v scope
    ∃ merged, merge es = .ok merged ∧ merged = .ofPairs (objects.flatMap Json.entries) ∧
      merged.keys = (objects.flatMap Json.keys).eraseDups ∧
      (∀ key, merged.property? key = objects.reverse.findSome? (·.property? key)) ∧
      ∀ front back, es = front ++ back →
        (front ≠ [] → merge (.call "merge" front :: back) = .ok merged) ∧
        (back ≠ [] → merge (front ++ [.call "merge" back]) = .ok merged) := by
  intro merge
  have kinds : ∀ o ∈ objects, o.kind = .object := fun o member => (formed o member).1
  have distinct : ∀ o ∈ objects, o.keys.Nodup := fun o member => (formed o member).2
  refine ⟨_,eval_mergeBody filled evaluated kinds,Builtin.mergeBody_ofPairs distinct,Builtin.mergeBody_keys distinct,
    Builtin.mergeBody_property distinct,?_⟩
  rintro front back rfl
  have first := List.forall₂_take front.length evaluated
  have second := List.forall₂_drop front.length evaluated
  rw [List.take_left] at first
  rw [List.drop_left] at second
  rw [← List.take_append_drop front.length objects] at kinds distinct ⊢
  obtain ⟨kinds₁,kinds₂⟩ := List.forall_mem_append.mp kinds
  obtain ⟨distinct₁,distinct₂⟩ := List.forall_mem_append.mp distinct
  refine ⟨fun some => ?_,fun some => ?_⟩
  · rw [← Builtin.mergeBody_front distinct₁ distinct₂]
    refine eval_mergeBody nofun (.cons (eval_mergeBody some first kinds₁) second) ?_
    exact List.forall_mem_cons.mpr ⟨rfl,kinds₂⟩
  · rw [← Builtin.mergeBody_back distinct₁ distinct₂]
    refine eval_mergeBody (List.concat_ne_nil _ _) ?_ ?_
    · exact List.rel_append first (.cons (eval_mergeBody some second kinds₂) .nil)
    · exact List.forall_mem_append.mpr ⟨kinds₁,List.forall_mem_singleton.mpr rfl⟩

-- The key of both keeps its place in the first and takes the null of the second.
theorem Expr.eval_merge_overridden :
    let v : Json := .object [("a",.bool true),("b",.bool true)]
    let root : Json := .object [("b",.null),("c",.bool false)]
    let merge (es : List Expr) := (Expr.call "merge" es).eval ⟨.builtins,false,root⟩ v .empty
    let merged : Json := .object [("a",.bool true),("b",.null),("c",.bool false)]
    v.keys.Nodup ∧ root.keys.Nodup ∧ merge [.current,.root] = .ok merged ∧
      merge [.call "merge" [.current],.root] = .ok merged ∧ merge [.current,.call "merge" [.root]] = .ok merged := by
  intro v root merge merged
  have distinct : v.keys.Nodup ∧ root.keys.Nodup := by decide
  have evaluated : List.Forall₂ (fun (e : Expr) o => e.eval ⟨.builtins,false,root⟩ v .empty = .ok o)
      [.current,.root] [v,root] := .cons rfl (.cons rfl .nil)
  have formed : ∀ o ∈ [v,root], o.kind = .object ∧ o.keys.Nodup :=
    List.forall_mem_cons.mpr ⟨⟨rfl,distinct.1⟩,List.forall_mem_singleton.mpr ⟨rfl,distinct.2⟩⟩
  obtain ⟨_,given,rfl,_,_,grouped⟩ := Expr.eval_merge false root v .empty (List.cons_ne_nil _ _) evaluated formed
  obtain ⟨front,back⟩ := grouped [.current] [.root] rfl
  exact ⟨distinct.1,distinct.2,given,front nofun,back nofun⟩

end JsonQuery
