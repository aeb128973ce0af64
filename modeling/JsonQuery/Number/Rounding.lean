namespace JsonQuery.Number

-- The whole number nearest to a quotient; a half goes to the even neighbour.
-- No caller divides by zero, and then too the answer is at most one.
def nearest (num den : Nat) : Nat :=
  let whole := num / den
  let left := num % den
  if 2 * left < den then whole
  else if den < 2 * left then whole + 1
  else whole + whole % 2

theorem nearest_le (num den : Nat) : nearest num den ≤ num / den + 1 := by
  unfold nearest
  dsimp only
  split
  · omega
  · split <;> omega

-- Fifty-three significant bits are kept: the grain is the weight of the last one,
-- as a power of two, and it never drops below one unit.
def grain (num den : Nat) : Nat := (num / den).log2 - 52

def significand (num den : Nat) : Nat := nearest num (den * Nat.pow 2 (grain num den))

theorem significand_le (num den : Nat) : significand num den ≤ Nat.pow 2 53 := by
  have step := nearest_le num (den * Nat.pow 2 (grain num den))
  have small : num / (den * Nat.pow 2 (grain num den)) < Nat.pow 2 53 := by
    rw [← Nat.div_div_eq_div_mul]
    apply Nat.div_lt_of_lt_mul
    have top := Nat.lt_log2_self (n := num / den)
    refine Nat.lt_of_lt_of_le top ?_
    rw [Nat.pow_eq,Nat.pow_eq,← Nat.pow_add]
    apply Nat.pow_le_pow_right (by decide)
    unfold grain
    omega
  unfold significand
  omega

end JsonQuery.Number
