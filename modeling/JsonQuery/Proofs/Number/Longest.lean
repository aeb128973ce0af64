import Mathlib.Data.Nat.Digits.Defs
import JsonQuery.Proofs.Number.Numeral

namespace JsonQuery.Number

theorem digitsValue_positional (digits : List Char) :
    digitsValue digits = Nat.ofDigits 10 (digits.reverse.map fun c => c.toNat - '0'.toNat) := by
  rw [Nat.ofDigits_eq_foldr,List.foldr_map,List.foldr_reverse]
  unfold digitsValue
  congr 1
  funext value c
  exact (Nat.add_comm _ _).trans (congrArg _ (Nat.mul_comm _ _))

namespace Numeral

-- What its digits say, were it no more than a sign and digits: the last one counts once, and each
-- other ten times as much as the one behind it.
def exactValue (n : Numeral) : Int :=
  let magnitude : Nat := Nat.ofDigits 10 (n.whole.reverse.map fun c => c.toNat - '0'.toNat)
  if n.sign = [] then magnitude else -magnitude

-- Of all numerals that the text starts with, the longest.
structure Longest (n : Numeral) (text : List Char) : Prop where
  formed : n.Formed
  front : n.text <+: text
  most : ∀ m : Numeral, m.Formed → m.text <+: text → m.text.length ≤ n.text.length

theorem wholeValue_exact (n : Numeral) : n.wholeValue = n.exactValue := by
  unfold wholeValue exactValue negative
  rw [digitsValue_positional]
  cases n.sign <;> rfl

-- Greedy scanning finds the longest numeral, and there is one only.
theorem longest_iff {n : Numeral} {text : List Char} : n.Longest text ↔ (scan text).whole ≠ [] ∧ scan text = n := by
  constructor
  · rintro ⟨formed,⟨rest,rfl⟩,most⟩
    have digits := formed.scan_whole rest
    have found := scan_formed digits
    have same : n.text = (scan (n.text ++ rest)).text :=
      formed.text_front.eq_of_length_le (most _ found (scan_front digits))
    refine ⟨digits,?_⟩
    rw [← found.scan_text,← same,formed.scan_text]
  · rintro ⟨digits,rfl⟩
    refine ⟨scan_formed digits,scan_front digits,?_⟩
    rintro m formed ⟨rest,rfl⟩
    exact formed.text_front.length_le

end Numeral
end JsonQuery.Number
