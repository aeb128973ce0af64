import JsonQuery.Proofs.Builtin.Protected
import JsonQuery.Proofs.Function.Call
import JsonQuery.Proofs.Function.History

namespace JsonQuery

-- The same fault as a call under another name tells it.
def EvalError.naming (name : String) : EvalError → EvalError
  | .arity _ takes actual => .arity name takes actual
  | .type (.argument _ position types actual) => .type (.argument name position types actual)
  | .type (.keyKind _ kind) => .type (.keyKind name kind)
  | .type (.keyKinds _ first kind) => .type (.keyKinds name first kind)
  | e => e

namespace Signature

theorem checkTypes_naming (s : Signature) (own name : String) (index : Nat) (arguments : List Argument) :
    s.checkTypes name index arguments = (s.checkTypes own index arguments).mapError (·.naming name) := by
  induction arguments generalizing index with
  | nil => rfl
  | cons argument rest ih =>
      unfold checkTypes
      split
      · rfl
      · split
        · exact ih (index + 1)
        · rfl

theorem validate_naming (s : Signature) (own name : String) (arguments : List Argument) :
    s.validate name arguments = (s.validate own arguments).mapError (·.naming name) := by
  unfold validate
  split
  · exact checkTypes_naming s own name 0 arguments
  · rfl

end Signature

namespace Function

-- Whether a fault is silenced does not depend on the name it tells.
theorem hush_naming (silent : Bool) (name : String) (e : EvalError) :
    hush silent (.error (e.naming name)) = (hush silent (.error e)).mapError (·.naming name) := by
  cases e with
  | type fault => cases fault <;> cases silent <;> rfl
  | _ => rfl

end Function

namespace Registry

-- Pairs of an existing name and the name it is given, the earliest first.
def aliased (history : List (String × String)) : Registry :=
  history.foldl (fun r pair => (Change.alias pair.1 pair.2).apply r) builtins

-- A name given to one that stands for nothing keeps its meaning.
def given (known : String → Option Builtin) (pair : String × String) : String → Option Builtin :=
  fun name => if name = pair.2 then (known pair.1).or (known name) else known name

-- The builtin that a name stands for after all that.
def meaning (history : List (String × String)) : String → Option Builtin :=
  history.foldl given fun name => Builtin.all.reverse.find? (·.name == name)

-- Under every name that stands for a builtin there is this builtin, renamed.
def Means (r : Registry) (known : String → Option Builtin) : Prop :=
  ∀ name, r.get? name = (known name).map fun b => b.function.renamed name

theorem builtins_means : Means builtins fun name => Builtin.all.reverse.find? (·.name == name) := by
  intro name
  rw [get?_builtins]
  refine Option.map_congr fun b found => ?_
  obtain rfl : b.name = name := by simpa using List.find?_some found
  rfl

theorem alias_means (pair : String × String) {r : Registry} {known : String → Option Builtin}
    (means : Means r known) : Means ((Change.alias pair.1 pair.2).apply r) (given known pair) := by
  intro name
  rw [Change.apply,addAlias,means pair.1,given]
  cases known pair.1 with
  | none => simpa using means name
  | some b =>
      by_cases same : name = pair.2
      · subst same
        simp [get?_adding,Function.renamed]
      · simpa [get?_adding,Function.renamed,same,Ne.symm same] using means name

theorem aliased_means (history : List (String × String)) : Means (aliased history) (meaning history) :=
  List.foldl_rel builtins_means fun pair _ _ _ => alias_means pair

-- A call by a given name differs from the call of the builtin in the refusal of its
-- arguments alone: what the body raises does not know the name.
theorem alias_call (history : List (String × String)) (name : String) (b : Builtin)
    (stands : meaning history name = some b) : ∃ f, (aliased history).get? name = some f ∧
      ∀ silent arguments current,
        (∀ v, f.call silent arguments current = .ok v ↔ b.function.call silent arguments current = .ok v) ∧
        ∀ e, b.function.call silent arguments current = .error e →
          b.signature.validate b.name arguments = .error e ∧
            f.call silent arguments current = .error (e.naming name) ∨
          b.signature.validate b.name arguments = .ok () ∧ f.call silent arguments current = .error e ∧
            (Builtin.Deferred arguments e ∨ b ∈ [.sortBy,.minBy,.maxBy] ∧ Builtin.KeyFault b.name e) := by
  have found : (aliased history).get? name = some (b.function.renamed name) := by
    rw [aliased_means history name,stands]
    rfl
  refine ⟨_,found,fun silent arguments current => ?_⟩
  have renamed := b.signature.validate_naming b.name name arguments
  cases checked : b.signature.validate b.name arguments with
  | ok =>
      rw [checked] at renamed
      have own : b.function.call silent arguments current = Function.hush silent (b.body arguments) := by
        rw [Function.call_hush,Builtin.function,checked]
        rfl
      have given : (b.function.renamed name).call silent arguments current = Function.hush silent (b.body arguments) := by
        rw [Function.call_hush,Function.renamed,Builtin.function,renamed]
        rfl
      rw [own,given]
      refine ⟨fun v => .rfl,fun e raised => .inr ⟨rfl,raised,?_⟩⟩
      exact Builtin.body_fault (fun _ => Builtin.asks_granted checked) (Function.hush_raised raised)
  | error e =>
      rw [checked] at renamed
      have own : b.function.call silent arguments current = Function.hush silent (.error e) := by
        rw [Function.call_hush,Builtin.function,checked]
        rfl
      have given : (b.function.renamed name).call silent arguments current =
          (Function.hush silent (.error e)).mapError (·.naming name) := by
        rw [Function.call_hush,Function.renamed,Builtin.function,renamed,← Function.hush_naming]
        rfl
      rw [own,given]
      cases outcome : Function.hush silent (.error e) with
      | ok v => exact ⟨fun _ => .rfl,fun _ raised => by cases raised⟩
      | error e' =>
          cases Function.hush_raised outcome
          refine ⟨fun v => ?_,fun _ raised => .inl ?_⟩
          · constructor <;> intro absent <;> cases absent
          · cases raised
            exact ⟨rfl,rfl⟩

theorem alias_call_chain : ∃ f, (aliased [("abs","magnitude"),("magnitude","size")]).get? "size" = some f ∧
    f.call false [] .null = .error (.arity "size" ⟨1,some 1⟩ 0) := by
  obtain ⟨f,found,calls⟩ := alias_call [("abs","magnitude"),("magnitude","size")] "size" .abs rfl
  obtain ⟨_,raised⟩ | ⟨admitted,_⟩ := (calls false [] .null).2 (.arity "abs" ⟨1,some 1⟩ 0) rfl
  · exact ⟨f,found,raised⟩
  · cases admitted

-- The keys of a sort are refused in the name of `sort_by`, whatever it was called by.
theorem alias_call_keys : ∃ f arguments e, (aliased [("sort_by","s")]).get? "s" = some f ∧
    Builtin.sortBy.function.call false arguments .null = .error e ∧
    f.call false arguments .null = .error e ∧ e.naming "s" ≠ e :=
  ⟨Builtin.sortBy.function.renamed "s",[.value (.array [.bool true]),.expression .current .ok],
    .type (.keyKind "sort_by" .boolean),(aliased_means _ _).trans rfl,rfl,rfl,by decide⟩

end Registry
end JsonQuery
