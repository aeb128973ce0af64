import Mathlib.Data.Nat.Log
import JsonQuery.Number.Scaled
import JsonQuery.Proofs.Number.Exact

namespace JsonQuery.Number

-- Rounding does not pass a number of the format, neither from below nor from above.

theorem nearest_bounded {num den : Nat} (bound : Nat) (some : 0 < den) (below : num ≤ bound * den) :
    nearest num den ≤ bound := by
  rcases Nat.lt_or_eq_of_le (Nat.div_le_of_le_mul (Nat.mul_comm bound den ▸ below)) with less | equal
  · have step := nearest_le num den
    omega
  · have whole : den * bound + num % den = num := by rw [← equal]; exact Nat.div_add_mod num den
    have exact : num % den = 0 := by rw [Nat.mul_comm] at below; omega
    simp [nearest,exact,some,equal]

theorem le_nearest (num den : Nat) : num / den ≤ nearest num den := by
  unfold nearest
  dsimp only
  split
  · exact Nat.le_refl _
  · split <;> omega

theorem Representable.rounded_le {units num den : Nat} (fits : Representable units) (some : 0 < den)
    (below : num ≤ units * den) : Number.significand num den * Nat.pow 2 (grain num den) ≤ units := by
  have whole : num / den ≤ units / 1 := by
    rw [Nat.div_one]
    exact Nat.div_le_of_le_mul (Nat.mul_comm units den ▸ below)
  have finer : grain num den ≤ grain units 1 := by
    simp only [grain,Nat.log2_eq_log_two]
    exact Nat.sub_le_sub_right (Nat.log_mono_right whole) 52
  obtain ⟨count,same⟩ := Nat.dvd_trans (Nat.pow_dvd_pow 2 finer) fits.grain_dvd
  have places : 0 < Nat.pow 2 (grain num den) := Nat.two_pow_pos _
  have counted : Number.significand num den ≤ count := by
    refine nearest_bounded count (Nat.mul_pos some places) ?_
    calc num ≤ units * den := below
      _ = count * (den * Nat.pow 2 (grain num den)) := by
        conv => lhs; rw [same]
        rw [Nat.pow_eq,Nat.mul_comm (2 ^ _),Nat.mul_assoc,Nat.mul_comm (2 ^ _)]
  calc Number.significand num den * Nat.pow 2 (grain num den)
      ≤ count * Nat.pow 2 (grain num den) := Nat.mul_le_mul_right _ counted
    _ = units := by rw [Nat.mul_comm]; exact same.symm

theorem Representable.le_rounded {units num den : Nat} (fits : Representable units) (some : 0 < den)
    (above : units * den ≤ num) : units ≤ Number.significand num den * Nat.pow 2 (grain num den) := by
  have quotient : units ≤ num / den := (Nat.le_div_iff_mul_le some).mpr above
  have reached {count : Nat} (enough : count * Nat.pow 2 (grain num den) ≤ num / den) :
      count * Nat.pow 2 (grain num den) ≤ Number.significand num den * Nat.pow 2 (grain num den) := by
    refine Nat.mul_le_mul_right _ (Nat.le_trans ?_ (le_nearest _ _))
    rw [← Nat.div_div_eq_div_mul]
    exact (Nat.le_div_iff_mul_le (Nat.two_pow_pos _)).mpr enough
  rcases Nat.lt_or_ge (grain units 1) (grain num den) with coarser | finer
  · -- Then there is a higher bit in the quotient, and it stays there.
    have places : (num / den).log2 = 52 + grain num den := by unfold grain at *; omega
    have shorter : units.log2 < (num / den).log2 := by simp only [grain,Nat.div_one] at *; omega
    have present : num / den ≠ 0 := by rintro none; simp [none] at shorter
    have leading : Nat.pow 2 52 * Nat.pow 2 (grain num den) ≤ num / den := by
      rw [Nat.pow_eq,Nat.pow_eq,← Nat.pow_add,← places]
      exact Nat.log2_self_le present
    refine Nat.le_trans (Nat.le_of_lt ?_) (reached leading)
    rw [Nat.pow_eq,Nat.pow_eq,← Nat.pow_add,← places]
    exact Nat.lt_of_lt_of_le Nat.lt_log2_self (Nat.pow_le_pow_right (by decide) shorter)
  · obtain ⟨count,same⟩ := Nat.dvd_trans (Nat.pow_dvd_pow 2 finer) fits.grain_dvd
    rw [Nat.mul_comm] at same
    rw [same] at quotient ⊢
    exact reached quotient

-- Numbers of a thousand bits and more are not opened by rewriting.
attribute [local irreducible] one limit

theorem joinDigits_word {significand : Nat} (word : significand < 0x10000000000000000) (digits : List Char) :
    (joinDigits significand digits).1 < 0x10000000000000000 := by
  induction digits generalizing significand with
  | nil => exact word
  | cons c rest ih =>
      unfold joinDigits
      dsimp only
      split
      · rename_i next
        exact ih next
      · exact word

namespace Binary64

section
variable {units num den : Nat} (negative : Bool) (fits : Representable units) (some : 0 < den)
  (below : num ≤ units * den)
include fits some below

theorem ofRatio_below : ∃ room, ofRatio negative num den =
    .finite negative (significand num den * Nat.pow 2 (grain num den)) room :=
  ⟨_,dif_pos (Nat.lt_of_le_of_lt (fits.rounded_le some below) fits.1)⟩

theorem ofRatio_finite : (ofRatio negative num den).isFinite = true := by
  obtain ⟨_,same⟩ := ofRatio_below negative fits some below
  rw [same]
  rfl

end

theorem negated_finite {x : Binary64} : x.negated.isFinite = x.isFinite := by cases x <;> rfl

theorem ofInt_finite {n : Int} (word : n.natAbs ≤ 0x10000000000000000) : (ofInt n).isFinite = true := by
  have fits : Representable (0x10000000000000000 * one) := by
    refine ⟨by decide +kernel,1,1138,Nat.one_le_two_pow,by decide +kernel⟩
  refine ofRatio_finite _ fits Nat.one_pos ?_
  rw [Nat.mul_one]
  exact Nat.mul_le_mul_right one word

theorem one_representable : Representable one :=
  ⟨by decide +kernel,1,1074,Nat.one_le_two_pow,by decide +kernel⟩

-- Each power of ten that is a double is at least one, and dividing by it makes nothing larger.
theorem powerOfTen_units {exponent : Nat} (double : exponent ≤ 308) :
    ∃ units fits, powerOfTen exponent = .finite false units fits ∧ one ≤ units := by
  have greatest : Representable ((Nat.pow 2 53 - 1) * Nat.pow 2 2045) :=
    ⟨by decide +kernel,_,_,Nat.sub_le _ _,rfl⟩
  have read : powerOfTen exponent = ofRatio false (10 ^ exponent * one) 1 := by
    have digit : (Nat.toDigits 10 1).length = 1 := rfl
    have small : ¬310 < (1 : Int) + exponent ∧ ¬(1 : Int) + exponent < -330 := by omega
    simp [powerOfTen,Decimal.toBinary64,Decimal.scale,Decimal.numerator,Decimal.denominator,digit,small]
  have below : 10 ^ exponent * one ≤ (Nat.pow 2 53 - 1) * Nat.pow 2 2045 * 1 := by
    refine Nat.le_trans (Nat.mul_le_mul_right one (Nat.pow_le_pow_right (by decide) double)) ?_
    decide +kernel
  have above : one * 1 ≤ 10 ^ exponent * one := by
    rw [Nat.mul_one]
    exact Nat.le_mul_of_pos_left one (Nat.pow_pos (by decide))
  obtain ⟨room,same⟩ := ofRatio_below false greatest Nat.one_pos below
  exact ⟨_,room,read.trans same,one_representable.le_rounded Nat.one_pos above⟩

theorem quotient_powerOfTen_finite {x : Binary64} {exponent : Nat} (finite : x.isFinite = true)
    (double : exponent ≤ 308) : (x.quotient (powerOfTen exponent)).isFinite = true := by
  obtain ⟨power,fits,same,least⟩ := powerOfTen_units double
  have some : 0 < power := Nat.lt_of_lt_of_le one_pos least
  cases x with
  | nan | infinite => cases finite
  | finite negative units itself =>
      rw [same]
      simp only [quotient,if_neg some.ne']
      exact ofRatio_finite _ itself some (Nat.mul_le_mul_left units least)

theorem steppedDown_finite {x : Binary64} (finite : x.isFinite = true) (steps : Nat) :
    (steppedDown steps x).isFinite = true := by
  induction steps generalizing x with
  | zero => exact finite
  | succ steps ih =>
      unfold steppedDown
      split
      · exact finite
      · exact ih (quotient_powerOfTen_finite finite (Nat.le_refl _))

theorem scaled?_finite {x y : Binary64} {exponent : Int} (finite : x.isFinite = true)
    (scaled : x.scaled? exponent = some y) : y.isFinite = true := by
  unfold scaled? at scaled
  dsimp only at scaled
  split at scaled
  · split at scaled
    · cases scaled
      exact finite
    · cases scaled
  · split at scaled
    · split at scaled
      · rename_i within
        cases scaled
        exact within
      · cases scaled
    · cases scaled
      exact quotient_powerOfTen_finite (steppedDown_finite finite _) (by omega)

end Binary64

theorem Numeral.quick?_finite {n : Numeral} (read : n.quick? = some x) : x.isFinite = true := by
  unfold quick? at read
  dsimp only at read
  obtain ⟨scaled,found,rfl⟩ := Option.map_eq_some_iff.mp read
  have word := joinDigits_word (joinDigits_word (Nat.zero_lt_succ _) n.whole) (n.fraction.drop 1)
  have finite := Binary64.scaled?_finite (Binary64.ofInt_finite (n := (joinDigits _ _).1) (Nat.le_of_lt word)) found
  split
  · rwa [Binary64.negated_finite]
  · exact finite

-- One digit more, and the steps that are rounded fall on the other side of the greatest double.
example : (Numeral.scan "1.79769313486231581e308".toList).quick?.isSome = true ∧
    (Numeral.scan "1.7976931348623158e308".toList).quick? = none := by decide +kernel

end JsonQuery.Number
