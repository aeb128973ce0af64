import JsonQuery.Proofs.Evaluation.Calls
import JsonQuery.Proofs.Evaluation.Silence
import JsonQuery.Proofs.Outcome

namespace JsonQuery

section
variable {silent : Bool} {root v : Json} {scope : Scope Json} {subject : Expr} {elements : List Json}
  (given : subject.eval ⟨.builtins,silent,root⟩ v scope = .ok (.array elements))
include given

-- Silence has nothing to do here: the only faults are those of the elements, and in a silent run
-- none of these is a type fault.
theorem eval_map (e : Expr) : (Expr.call "map" [.reference e,subject]).eval ⟨.builtins,silent,root⟩ v scope =
    elements.mapM (fun element => e.eval ⟨.builtins,silent,root⟩ element scope) >>= fun results =>
      pure (.array results) := by
  have passed : Builtin.map.function.signature.validate Builtin.map.function.name
      [.expression e fun element => e.eval ⟨.builtins,silent,root⟩ element scope,.value (.array elements)] = .ok () := rfl
  refine (Expr.eval_builtin .map [.reference e,subject] silent root v scope).trans ?_
  rw [List.mapM_cons,List.mapM_cons,Expr.evalArgument_given given rfl]
  refine (Function.call_passed silent passed).trans (Function.hush_quiet ?_)
  intro hushed
  subst hushed
  have each (element : Json) : Silenced Eq (e.eval ⟨.builtins,false,root⟩ element scope)
      (e.eval ⟨.builtins,true,root⟩ element scope) := eval_silenced e element scope
  exact (mapM_silenced elements fun element _ => each element).quiet.bind fun _ => .ok _

theorem eval_projected (e : Expr) : (Expr.projectArray subject (some e)).eval ⟨.builtins,silent,root⟩ v scope =
    elements.mapM (fun element => e.eval ⟨.builtins,silent,root⟩ element scope) >>= fun results =>
      pure (.array (results.filter fun v => !v.isNull)) := by
  rw [Expr.eval,given]
  exact project_mapM _ elements

end

-- What a map gives is what a projection gives before the nulls are dropped, and what stops the one
-- stops the other: the first element that fails.
theorem Expr.eval_map_projection (subject e : Expr) (silent : Bool) (root v : Json) (scope : Scope Json)
    (elements : List Json) (given : subject.eval ⟨.builtins,silent,root⟩ v scope = .ok (.array elements)) :
    let each (element : Json) := e.eval ⟨.builtins,silent,root⟩ element scope
    let mapped := (Expr.call "map" [.reference e,subject]).eval ⟨.builtins,silent,root⟩ v scope
    let projected := (Expr.projectArray subject (some e)).eval ⟨.builtins,silent,root⟩ v scope
    (∃ results, List.Forall₂ (fun element result => each element = .ok result) elements results ∧
      mapped = .ok (.array results) ∧ projected = .ok (.array (results.filter fun v => !v.isNull))) ∨
    ∃ front element back fault, elements = front ++ element :: back ∧
      (∀ earlier ∈ front, ∃ result, each earlier = .ok result) ∧ each element = .error fault ∧
      mapped = .error fault ∧ projected = .error fault := by
  intro each mapped projected
  have maps : mapped = elements.mapM each >>= fun results => pure (.array results) := eval_map given e
  have projects : projected = elements.mapM each >>= fun results => pure (.array (results.filter fun v => !v.isNull)) :=
    eval_projected given e
  cases run : elements.mapM each with
  | ok results =>
      rw [run] at maps projects
      exact .inl ⟨results,mapM_forall₂.mp run,maps,projects⟩
  | error fault =>
      rw [run] at maps projects
      obtain ⟨front,element,back,divided,earlier,raised⟩ := mapM_first run
      exact .inr ⟨front,element,back,fault,divided,earlier,raised,maps,projects⟩

-- A name that is missing somewhere leaves a null, which only the map keeps.
theorem Expr.eval_map_projection_missing :
    let v : Json := .array [.object [("a",.bool true)],.object []]
    let setting : Setting := ⟨.builtins,false,v⟩
    (Expr.call "map" [.reference (.field "a"),.current]).eval setting v .empty = .ok (.array [.bool true,.null]) ∧
      (Expr.projectArray .current (some (.field "a"))).eval setting v .empty = .ok (.array [.bool true]) := by
  intro v setting
  have maps : (Expr.call "map" [.reference (.field "a"),.current]).eval setting v .empty =
      .ok (.array [.bool true,.null]) := rfl
  refine ⟨maps,?_⟩
  rcases Expr.eval_map_projection .current (.field "a") false v v .empty _ rfl with
    ⟨results,_,mapped,projected⟩ | ⟨_,_,_,fault,_,_,_,mapped,_⟩
  · cases maps.symm.trans mapped
    exact projected
  · cases maps.symm.trans mapped

end JsonQuery
