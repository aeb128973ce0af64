import JsonQuery.Function.Registry
import JsonQuery.Proofs.Outcome

namespace JsonQuery
namespace Function

-- What a call makes of its outcome.
def hush (silent : Bool) : Except EvalError Json → Except EvalError Json
  | .error (.type fault) => if silent then .ok .null else .error (.type fault)
  | r => r

theorem call_hush (silent : Bool) (f : Function) (arguments : List Argument) (current : Json) :
    f.call silent arguments current =
      hush silent (f.signature.validate f.name arguments >>= fun _ => f.body arguments current) := by
  unfold call hush
  dsimp only
  split <;> simp_all

-- Silence leaves an outcome alone or has null for a type fault.
theorem hush_cases (silent : Bool) (r : Except EvalError Json) :
    hush silent r = r ∨ silent = true ∧ hush silent r = .ok .null ∧ ∃ fault, r = .error (.type fault) := by
  unfold hush
  split
  · rename_i fault
    cases silent with
    | false => exact .inl rfl
    | true => exact .inr ⟨rfl,rfl,fault,rfl⟩
  · exact .inl rfl

theorem hush_raised {silent : Bool} {r : Except EvalError Json} {e : EvalError}
    (raised : hush silent r = .error e) : r = .error e := by
  rcases hush_cases silent r with same | ⟨_,null,_⟩
  · exact same ▸ raised
  · cases null.symm.trans raised

theorem hush_quiet {silent : Bool} {r : Except EvalError Json}
    (quiet : silent = true → ∀ fault, r ≠ .error (.type fault)) : hush silent r = r := by
  rcases hush_cases silent r with same | ⟨on,_,fault,failed⟩
  · exact same
  · exact absurd failed (quiet on fault)

section
variable {f : Function} {arguments : List Argument} {current v : Json}

theorem call_passed (silent : Bool) (passed : f.signature.validate f.name arguments = .ok ()) :
    f.call silent arguments current = hush silent (f.body arguments current) := by
  rw [call_hush,passed]
  rfl

theorem call_answers (passed : f.signature.validate f.name arguments = .ok ()) (given : f.body arguments current = .ok v)
    (silent : Bool) : f.call silent arguments current = .ok v := by
  rw [call_passed silent passed,given]
  rfl

-- A result that silence did not put in the place of a fault is the body's own.
theorem call_answered (answered : f.call silent arguments current = .ok v) (spoken : silent = false ∨ v ≠ .null) :
    f.signature.validate f.name arguments = .ok () ∧ f.body arguments current = .ok v := by
  rw [call_hush] at answered
  rcases hush_cases silent (f.signature.validate f.name arguments >>= fun _ => f.body arguments current) with
    same | ⟨on,null,_⟩
  · obtain ⟨_,passed,given⟩ := bind_ok.mp (same.symm.trans answered)
    exact ⟨passed,given⟩
  · cases null.symm.trans answered
    rcases spoken with off | other
    · cases on.symm.trans off
    · exact absurd rfl other

end
end Function
end JsonQuery
