import Mathlib.Tactic.NormNum
import JsonQuery.Json.Basic
import JsonQuery.Proofs.Number.Exact

namespace JsonQuery.Json
open Number

theorem ofBinary64_eq (x : Binary64) : ofBinary64 x =
    if x.IsWord then .number (.int x.toWord) else if x.isFinite then .number (.float x) else .null := by
  by_cases word : x.IsWord
  · obtain ⟨n,whole,low,high⟩ := Binary64.isWord_iff.mp word
    rw [if_pos word,Binary64.toWord_whole whole low high,ofBinary64,whole]
    exact if_pos ⟨low,high⟩
  · rw [if_neg word,ofBinary64]
    cases whole : x.toInt? with
    | none => rfl
    | some n =>
        have outside : ¬(-0x8000000000000000 ≤ n ∧ n < 0x8000000000000000) := fun inside =>
          word (Binary64.isWord_iff.mpr ⟨n,whole,inside⟩)
        rw [if_pos (Binary64.toInt?_iff.mp whole).1]
        exact if_neg outside

-- A computed number is kept exactly, but for the sign of zero: as an integer whenever it is one
-- that a word holds, and else as it is.
theorem ofBinary64_lossless (x : Binary64) :
    (ofBinary64 x = .null ↔ x = .nan ∨ ∃ negative, x = .infinite negative) ∧
    (x.rational? = none ↔ x = .nan ∨ ∃ negative, x = .infinite negative) ∧
    (ofBinary64 x =
      if x.IsWord then .number (.int x.toWord) else if x.isFinite then .number (.float x) else .null) ∧
    ∀ q, x.rational? = some q → ∃ n y, ofBinary64 x = .number n ∧ (ofBinary64 x).asNumber? = some y ∧
      y.compare? x = some .eq ∧ y.rational? = some q ∧ (q ≠ 0 → y = x) ∧
      ((∃ i, n = .int i) ↔ (∃ i : Int, q = i) ∧ -2 ^ 63 ≤ q ∧ q < 2 ^ 63) ∧
      ∀ i, n = .int i → q = i ∧ x.toWord = i ∧ (Binary64.ofInt i).rational? = some (i : ℚ) := by
  refine ⟨?null,Binary64.rational?_none,ofBinary64_eq x,fun q value => ?number⟩
  case null =>
      cases x with
      | nan | infinite => simp [ofBinary64,Binary64.toInt?,Binary64.isFinite]
      | finite negative units fits =>
          rw [ofBinary64_eq]
          split <;> simp [Binary64.isFinite]
  case number =>
      obtain ⟨finite,place,here,_⟩ := Binary64.rational?_iff.mp value
      rw [← Binary64.isWord_rational value]
      by_cases word : x.IsWord
      · obtain ⟨i,whole,low,high⟩ := Binary64.isWord_iff.mp word
        have cast := Binary64.toWord_whole whole low high
        have stored : ofBinary64 x = .number (.int i) := by rw [ofBinary64_eq,if_pos word,cast]
        obtain rfl := Option.some.inj (value.symm.trans (Binary64.toInt?_rational.mp whole))
        obtain ⟨again,same,identical⟩ := Binary64.ofInt_toInt? whole
        have back := Binary64.toInt?_rational.mp again
        refine ⟨.int i,.ofInt i,stored,by rw [stored]; rfl,?_,back,?_,⟨fun _ => word,fun _ => ⟨i,rfl⟩⟩,?_⟩
        · rw [Binary64.compare?_places (same.trans here) here,compare_eq_iff_eq.mpr rfl]
        · exact fun nonzero => identical (Int.cast_ne_zero.mp nonzero)
        · rintro _ ⟨⟩
          exact ⟨rfl,cast,back⟩
      · have stored : ofBinary64 x = .number (.float x) := by rw [ofBinary64_eq,if_neg word,if_pos finite]
        refine ⟨.float x,x,stored,by rw [stored]; rfl,?_,value,fun _ => rfl,⟨?_,fun fits => absurd fits word⟩,?_⟩
        · rw [Binary64.compare?_places here here,compare_eq_iff_eq.mpr rfl]
        · rintro ⟨_,⟨⟩⟩
        · rintro _ ⟨⟩

-- The bounds of a word as doubles: the lower one is a word, and the upper one has become the number
-- behind the greatest.
theorem ofBinary64_lossless_bounds :
    let low : Binary64 := .ofInt (-0x8000000000000000)
    let high : Binary64 := .ofInt 0x7FFFFFFFFFFFFFFF
    low.rational? = some (-2 ^ 63) ∧ ofBinary64 low = .number (.int (-0x8000000000000000)) ∧
      high.rational? = some (2 ^ 63) ∧ ofBinary64 high = .number (.float high) := by
  intro low high
  have least : low.toInt? = some (-0x8000000000000000) := by decide +kernel
  have beyond : high.toInt? = some 0x8000000000000000 := by decide +kernel
  have below : low.rational? = some (-2 ^ 63) := (Binary64.toInt?_rational.mp least).trans (by norm_num)
  have above : high.rational? = some (2 ^ 63) := (Binary64.toInt?_rational.mp beyond).trans (by norm_num)
  obtain ⟨n,_,stored,_,_,_,_,integral,value⟩ := (ofBinary64_lossless low).2.2.2 _ below
  obtain ⟨m,y,stored',number,_,_,same,integral',_⟩ := (ofBinary64_lossless high).2.2.2 _ above
  refine ⟨below,?_,above,?_⟩
  · obtain ⟨i,rfl⟩ := integral.mpr ⟨⟨-0x8000000000000000,by norm_num⟩,by norm_num,by norm_num⟩
    have found : (-2 ^ 63 : Int) = i := mod_cast (value i rfl).1
    rw [stored,← found]
    rfl
  · cases m with
    | int i => exact absurd (integral'.mp ⟨i,rfl⟩).2.2 (lt_irrefl _)
    | float z =>
        have back : some z = some y := by
          rw [← number,stored']
          rfl
        obtain rfl := Option.some.inj back
        rw [stored',same (by norm_num)]

end JsonQuery.Json
