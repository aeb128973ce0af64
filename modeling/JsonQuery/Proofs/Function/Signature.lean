import JsonQuery.Function.Signature

namespace JsonQuery
namespace Signature

-- Behind a position without types there are none either: only a variadic type goes on.
theorem typesAt?_none {s : Signature} {index later : Nat} (ended : s.typesAt? index = none)
    (behind : index ≤ later) : s.typesAt? later = none := by
  unfold typesAt? at ended ⊢
  split at ended
  · cases ended
  · rename_i beyond
    have short := List.getElem?_eq_none_iff.mp beyond
    rw [List.getElem?_eq_none_iff.mpr (Nat.le_trans short behind)]
    exact ended

theorem checkTypes_ok {s : Signature} {function : String} {index : Nat} {arguments : List Argument} :
    s.checkTypes function index arguments = .ok () ↔ ∀ i x types, arguments[i]? = some x →
      s.typesAt? (index + i) = some types → x.accepts types = true := by
  induction arguments generalizing index with
  | nil => simp [checkTypes]
  | cons argument rest ih =>
      cases declared : s.typesAt? index with
      | none =>
          simp only [checkTypes,declared,true_iff]
          intro i x types _ given
          cases (typesAt?_none declared (Nat.le_add_right index i)).symm.trans given
      | some types =>
          simp only [checkTypes,declared]
          constructor
          · intro passed i x types' present given
            split at passed
            · rename_i accepted
              cases i with
              | zero => cases present; cases declared.symm.trans given; exact accepted
              | succ i => exact ih.mp passed i x types' present (by rwa [Nat.succ_add_eq_add_succ])
            · cases passed
          · intro each
            rw [if_pos (each 0 argument types rfl declared)]
            refine ih.mpr fun i x types' present given => each (i + 1) x types' present ?_
            rwa [Nat.succ_add_eq_add_succ] at given

theorem validate_ok {s : Signature} {function : String} {arguments : List Argument} :
    s.validate function arguments = .ok () ↔ s.arity.admits arguments.length = true ∧
      ∀ i x types, arguments[i]? = some x → s.typesAt? i = some types → x.accepts types = true := by
  unfold validate
  split
  · rename_i admitted
    simp [checkTypes_ok,admitted]
  · rename_i refused
    simp [refused]

-- Whether the arguments pass does not depend on the name that a refusal would tell.
theorem validate_required {s : Signature} {function : String} {arguments : List Argument} {index : Nat}
    {types : List ParameterType} (passed : s.validate function arguments = .ok ())
    (declared : s.typesAt? index = some types) (present : index < arguments.length) :
    ∃ x, arguments[index]? = some x ∧ x.accepts types = true :=
  ⟨_,List.getElem?_eq_getElem present,(validate_ok.mp passed).2 _ _ _ (List.getElem?_eq_getElem present) declared⟩

end Signature
end JsonQuery
