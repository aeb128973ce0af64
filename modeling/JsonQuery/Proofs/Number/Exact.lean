import Mathlib.Data.Rat.Cast.Order
import Mathlib.Tactic.NormNum
import JsonQuery.Number.Binary64

namespace JsonQuery.Number

theorem one_pos : 0 < one := by
  unfold one
  apply Nat.pow_pos
  decide

theorem one_pow : ∃ weight, one = Nat.pow 2 weight := ⟨1074,by delta one; rfl⟩

-- A count of units is a whole number when the unit goes into it, and then it is the quotient.
theorem signed_whole (negative : Bool) (units : Nat) (some : 0 < unit) (n : Int) :
    units % unit = 0 ∧ (if negative then -((units / unit : Nat) : Int) else (units / unit : Nat)) = n ↔
      (if negative then -(units : Int) else units) = n * unit := by
  have apart : (unit : Int) ≠ 0 := Nat.cast_ne_zero.mpr some.ne'
  constructor
  · rintro ⟨whole,rfl⟩
    obtain ⟨count,rfl⟩ := Nat.dvd_of_mod_eq_zero whole
    rw [Nat.mul_div_cancel_left count some]
    cases negative <;> simp [mul_comm]
  · intro same
    have whole : unit ∣ units := by
      apply Int.natCast_dvd_natCast.mp
      cases negative with
      | false => exact Dvd.intro_left n same.symm
      | true => exact Int.dvd_neg.mp (Dvd.intro_left n same.symm)
    refine ⟨Nat.mod_eq_zero_of_dvd whole,?_⟩
    obtain ⟨count,rfl⟩ := whole
    rw [Nat.mul_div_cancel_left count some]
    apply mul_right_cancel₀ apart
    rw [← same]
    cases negative <;> simp [mul_comm]

theorem nearest_multiple (count den : Nat) (some : 0 < den) : nearest (count * den) den = count := by
  simp [nearest,Nat.mul_div_cancel count some,some]

section
variable {units : Nat}

-- Fifty-three bits reach down to the grain, also when rounding had carried into the next one.
theorem Representable.grain_dvd (fits : Representable units) : Nat.pow 2 (grain units 1) ∣ units := by
  obtain ⟨_,bits,k,small,rfl⟩ := fits
  rcases Nat.eq_zero_or_pos bits with rfl | some
  · simp
  have positive : bits * 2 ^ k ≠ 0 := Nat.mul_ne_zero (Nat.ne_of_gt some) (Nat.two_pow_pos k).ne'
  rcases Nat.lt_or_eq_of_le small with less | full
  · have top : (bits * 2 ^ k).log2 < 53 + k := by
      rw [Nat.log2_lt positive,Nat.pow_add]
      exact Nat.mul_lt_mul_of_pos_right less (Nat.two_pow_pos k)
    refine Nat.dvd_trans (Nat.pow_dvd_pow 2 ?_) (Nat.dvd_mul_left _ _)
    simp only [grain,Nat.div_one,Nat.pow_eq]
    omega
  · have whole : bits * Nat.pow 2 k = 2 ^ (53 + k) := by rw [full,Nat.pow_eq,Nat.pow_eq,← Nat.pow_add]
    rw [whole]
    refine Nat.pow_dvd_pow 2 ?_
    simp only [grain,Nat.div_one,Nat.log2_two_pow]
    omega

theorem Representable.significand (fits : Representable units) :
    significand units 1 * Nat.pow 2 (grain units 1) = units := by
  obtain ⟨count,same⟩ := fits.grain_dvd
  rw [Nat.mul_comm] at same
  have found : Number.significand units 1 = count := by
    rw [Number.significand,Nat.one_mul]
    conv => lhs; arg 1; rw [same]
    exact nearest_multiple _ _ (Nat.two_pow_pos _)
  rw [found,← same]

-- What is left of a number is one again, since nothing is put below its last bit.
theorem Representable.remainder (fits : Representable units) (weight : Nat) :
    Representable (units % Nat.pow 2 weight) := by
  refine ⟨Nat.lt_of_le_of_lt (Nat.mod_le _ _) fits.1,?_⟩
  obtain ⟨_,bits,k,small,rfl⟩ := fits
  rcases Nat.le_total weight k with coarse | fine
  · refine ⟨0,0,Nat.zero_le _,?_⟩
    rw [Nat.zero_mul]
    exact Nat.mod_eq_zero_of_dvd (Nat.dvd_trans (Nat.pow_dvd_pow 2 coarse) (Nat.dvd_mul_left _ _))
  · refine ⟨bits % Nat.pow 2 (weight - k),k,Nat.le_trans (Nat.mod_le _ _) small,?_⟩
    have split : Nat.pow 2 weight = Nat.pow 2 (weight - k) * Nat.pow 2 k := by
      rw [Nat.pow_eq,Nat.pow_eq,Nat.pow_eq,← Nat.pow_add,Nat.sub_add_cancel fine]
    rw [split,Nat.mul_mod_mul_right]

theorem Representable.fraction (fits : Representable units) : Representable (units % one) := by
  obtain ⟨weight,same⟩ := one_pow
  rw [same]
  exact fits.remainder weight

end

-- Numbers of a thousand bits and more: from here on no rewriting opens them.
attribute [local irreducible] one limit

namespace Binary64

-- Rounding leaves what is a number of the format as it is.
theorem ofRatio_representable {units : Nat} (negative : Bool) (fits : Representable units) :
    ofRatio negative units 1 = .finite negative units fits := by
  simp only [ofRatio,fits.significand,dif_pos fits.1]

-- The dyadic fraction that a finite number is.
def rational? : Binary64 → Option ℚ
  | .finite negative units _ => some ((if negative then -(units : ℚ) else units) / one)
  | _ => none

-- What stands behind the point, with the sign of the whole.
def fract : Binary64 → Binary64
  | .finite negative units fits => .finite negative (units % one) fits.fraction
  | _ => .nan

-- Toward zero, and to the nearest word where that is none.
def toWord : Binary64 → Int
  | .nan => 0
  | .infinite negative => if negative then -0x8000000000000000 else 0x7FFFFFFFFFFFFFFF
  | .finite negative units _ =>
    let whole : Int := if negative then -((units / one : Nat) : Int) else (units / one : Nat)
    max (-0x8000000000000000) (min whole 0x7FFFFFFFFFFFFFFF)

-- Asked of doubles: the bounds are those of a word, and the upper one is rounded up to a number
-- that is none.
def IsWord (x : Binary64) : Prop :=
  x.fract.compare? (.zero false) = some .eq ∧
    x.compare? (.ofInt (-0x8000000000000000)) ∈ [some .eq,some .gt] ∧
    x.compare? (.ofInt 0x7FFFFFFFFFFFFFFF) = some .lt

instance (x : Binary64) : Decidable x.IsWord := inferInstanceAs (Decidable (_ ∧ _ ∧ _))

theorem rational?_iff {x : Binary64} {q : ℚ} : x.rational? = some q ↔
    x.isFinite = true ∧ ∃ place : Int, x.place? = some place ∧ q = place / one := by
  cases x with
  | nan | infinite => simp [rational?,isFinite]
  | finite negative units fits =>
      simp only [rational?,isFinite,place?,Option.some.injEq,true_and,exists_eq_left']
      cases negative <;> simp [eq_comm]

theorem rational?_none {x : Binary64} : x.rational? = none ↔ x = .nan ∨ ∃ negative, x = .infinite negative := by
  cases x <;> simp [rational?]

theorem toInt?_iff {x : Binary64} {n : Int} : x.toInt? = some n ↔
    x.isFinite = true ∧ x.place? = some (n * one) := by
  cases x with
  | nan | infinite => simp [toInt?,isFinite]
  | finite negative units fits =>
      simp only [toInt?,isFinite,place?,true_and,Option.some.injEq,← signed_whole negative units one_pos]
      split <;> simp [*]

theorem toInt?_rational {x : Binary64} {n : Int} : x.toInt? = some n ↔ x.rational? = some (n : ℚ) := by
  have some : (one : ℚ) ≠ 0 := Nat.cast_ne_zero.mpr one_pos.ne'
  rw [toInt?_iff,rational?_iff]
  refine and_congr_right fun _ => ⟨fun place => ?_,?_⟩
  · exact ⟨_,place,by rw [Int.cast_mul,Int.cast_natCast,mul_div_cancel_right₀ _ some]⟩
  · rintro ⟨place,here,same⟩
    rw [eq_div_iff some] at same
    rw [here,show place = n * one by exact_mod_cast same.symm]

theorem compare?_places {x y : Binary64} (here : x.place? = some i) (there : y.place? = some j) :
    x.compare? y = some (compare i j) := by
  simp [compare?,here,there]

theorem ofInt_representable {n : Int} (fits : Representable (n.natAbs * one)) :
    ofInt n = .finite (n < 0) (n.natAbs * one) fits ∧ (ofInt n).place? = some (n * one) := by
  have found : ofInt n = .finite (n < 0) (n.natAbs * one) fits := ofRatio_representable _ fits
  refine ⟨found,?_⟩
  rw [found,place?,Nat.cast_mul]
  by_cases sign : n < 0
  · have size : (n.natAbs : Int) = -n := by omega
    simp [sign,size]
  · have size : (n.natAbs : Int) = n := by omega
    simp [sign,size]

-- Its integer is the same double again, but for the sign of zero.
theorem ofInt_toInt? {x : Binary64} {n : Int} (whole : x.toInt? = some n) :
    (ofInt n).toInt? = some n ∧ (ofInt n).place? = x.place? ∧ (n ≠ 0 → ofInt n = x) := by
  obtain ⟨finite,place⟩ := toInt?_iff.mp whole
  cases x with
  | nan | infinite => cases finite
  | finite negative units fits =>
      obtain ⟨multiple,value⟩ := (signed_whole negative units one_pos n).mpr (Option.some.inj place)
      have size : n.natAbs = units / one := by
        generalize units / one = count at value ⊢
        cases negative <;> simp at value <;> omega
      have same : n.natAbs * one = units := by rw [size,Nat.div_mul_cancel (Nat.dvd_of_mod_eq_zero multiple)]
      subst same
      obtain ⟨found,there⟩ := ofInt_representable fits
      refine ⟨toInt?_iff.mpr ⟨by rw [found]; rfl,there⟩,there.trans place.symm,fun nonzero => ?_⟩
      have sign : decide (n < 0) = negative := by
        rw [← size] at value
        cases negative with
        | false =>
            have positive : (n.natAbs : Int) = n := value
            exact decide_eq_false (by omega)
        | true =>
            have negated : -(n.natAbs : Int) = n := value
            exact decide_eq_true (by omega)
      rw [found,sign]

-- The greatest word is beyond the fifty-three bits and rounds up to the power of two behind it.
theorem ofInt_bounds : (ofInt (-0x8000000000000000)).place? = some (-0x8000000000000000 * one : Int) ∧
    (ofInt 0x7FFFFFFFFFFFFFFF).place? = some (0x8000000000000000 * one : Int) := by
  constructor <;> decide +kernel

theorem fract_zero {x : Binary64} : x.fract.compare? (.zero false) = some .eq ↔ ∃ n, x.toInt? = some n := by
  cases x with
  | nan | infinite => simp [fract,compare?,place?,toInt?]
  | finite negative units fits =>
      have zero : (Binary64.zero false).place? = some 0 := rfl
      have here : (fract (.finite negative units fits)).place? =
        some (if negative then -((units % one : Nat) : Int) else (units % one : Nat)) := rfl
      rw [compare?_places here zero,Option.some.injEq,Std.LawfulEqOrd.compare_eq_iff_eq,toInt?]
      generalize units % one = left
      cases negative <;> simp

theorem compare?_multiples {x y : Binary64} {i j : Int} (here : x.place? = some (i * one))
    (there : y.place? = some (j * one)) : x.compare? y = some (compare i j) := by
  have positive : (0 : Int) < one := mod_cast one_pos
  rw [compare?_places here there,← cmp_eq_compare,cmp_mul_pos_right positive,cmp_eq_compare]

theorem isWord_iff {x : Binary64} : x.IsWord ↔
    ∃ n, x.toInt? = some n ∧ -0x8000000000000000 ≤ n ∧ n < 0x8000000000000000 := by
  obtain ⟨least,beyond⟩ := ofInt_bounds
  have bounds {n : Int} (whole : x.toInt? = some n) :
      x.compare? (.ofInt (-0x8000000000000000)) = some (compare n (-0x8000000000000000)) ∧
        x.compare? (.ofInt 0x7FFFFFFFFFFFFFFF) = some (compare n 0x8000000000000000) :=
    ⟨compare?_multiples (toInt?_iff.mp whole).2 least,compare?_multiples (toInt?_iff.mp whole).2 beyond⟩
  rw [IsWord,fract_zero]
  constructor
  · rintro ⟨⟨n,whole⟩,low,high⟩
    rw [(bounds whole).1] at low
    rw [(bounds whole).2,Option.some.injEq,compare_lt_iff_lt] at high
    refine ⟨n,whole,?_,high⟩
    by_contra less
    rw [compare_lt_iff_lt.mpr (not_le.mp less)] at low
    simp at low
  · rintro ⟨n,whole,low,high⟩
    refine ⟨⟨n,whole⟩,?_,?_⟩
    · rw [(bounds whole).1]
      have notLess := compare_ge_iff_ge.mpr low
      cases order : compare n (-0x8000000000000000) <;> simp_all
    · rw [(bounds whole).2,compare_lt_iff_lt.mpr high]

theorem isWord_rational {x : Binary64} {q : ℚ} (value : x.rational? = some q) :
    x.IsWord ↔ (∃ i : Int, q = i) ∧ -2 ^ 63 ≤ q ∧ q < 2 ^ 63 := by
  have low : (-2 ^ 63 : ℚ) = (-0x8000000000000000 : Int) := by norm_num
  have high : (2 ^ 63 : ℚ) = (0x8000000000000000 : Int) := by norm_num
  rw [isWord_iff,low,high]
  constructor
  · rintro ⟨n,whole,below,above⟩
    obtain rfl := Option.some.inj (value.symm.trans (toInt?_rational.mp whole))
    exact ⟨⟨n,rfl⟩,Int.cast_le.mpr below,Int.cast_lt.mpr above⟩
  · rintro ⟨⟨n,rfl⟩,below,above⟩
    exact ⟨n,toInt?_rational.mpr value,Int.cast_le.mp below,Int.cast_lt.mp above⟩

theorem toWord_whole {x : Binary64} {n : Int} (whole : x.toInt? = some n) (low : -0x8000000000000000 ≤ n)
    (high : n < 0x8000000000000000) : x.toWord = n := by
  cases x with
  | nan | infinite => cases whole
  | finite negative units fits =>
      simp only [toInt?] at whole
      split at whole
      · have value := Option.some.inj whole
        simp only [toWord,value]
        omega
      · cases whole

end Binary64
end JsonQuery.Number
