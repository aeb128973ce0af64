import JsonQuery.Number.Numeral

namespace JsonQuery.Number

-- The quick way to read a numeral: no more digits than a word holds, and then one multiplication
-- or division by a power of ten. Each of these steps is rounded, so the last bits may be others
-- than those of the nearest double, and so may the place be where numbers become too large.

-- The digits that a word has room for behind the significand so far, and those left over.
def joinDigits (significand : Nat) : List Char → Nat × List Char
  | [] => (significand,[])
  | c :: rest =>
    let next := significand * 10 + (c.toNat - '0'.toNat)
    if next < 0x10000000000000000 then joinDigits next rest else (significand,c :: rest)

namespace Binary64

def powerOfTen (exponent : Nat) : Binary64 := Decimal.toBinary64 ⟨false,1,exponent⟩

-- By 10^308 in each step; what has become zero stays.
def steppedDown : Nat → Binary64 → Binary64
  | 0, x => x
  | steps + 1, x => if x.isZero then x else steppedDown steps (x.quotient (powerOfTen 308))

-- The greatest power of ten that is a double is 10^308. Beyond it nothing but zero can be scaled
-- up, while the way down may take several steps.
def scaled? (x : Binary64) (exponent : Int) : Option Binary64 :=
  if 308 < exponent then if x.isZero then some x else none
  else if 0 ≤ exponent then
    let scaled := x.times (powerOfTen exponent.toNat)
    if scaled.isFinite then some scaled else none
  else
    let down := (-exponent).toNat
    let steps := (down - 1) / 308
    some ((steppedDown steps x).quotient (powerOfTen (down - 308 * steps)))

end Binary64

namespace Numeral

-- Digits of the whole part that are left over still count as places, those of the fraction do not.
def quick? (n : Numeral) : Option Binary64 :=
  let places := n.fraction.drop 1
  let (whole,larger) := joinDigits 0 n.whole
  let (significand,smaller) := joinDigits whole places
  let exponent := (larger.length : Int) - (places.length - smaller.length : Nat) + n.powerValue
  ((Binary64.ofInt significand).scaled? exponent).map fun x => if n.negative then x.negated else x

end Numeral
end JsonQuery.Number
