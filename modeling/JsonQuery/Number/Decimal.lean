import JsonQuery.Number.Binary64

namespace JsonQuery.Number

-- A number as written: `digits * 10 ^ exponent`, with a sign that zero may carry too.
structure Decimal where
  negative : Bool
  digits : Nat
  exponent : Int
deriving DecidableEq

namespace Decimal

-- One more than the exponent of the leading digit.
def scale (x : Decimal) : Int := (Nat.toDigits 10 x.digits).length + x.exponent

def numerator (x : Decimal) : Nat := x.digits * Nat.pow 10 x.exponent.toNat * one

def denominator (x : Decimal) : Nat := Nat.pow 10 (-x.exponent).toNat

-- The two guards decide nothing that rounding would not: from 10^310 on every
-- number overflows, and below 10^-324 every number rounds to zero. They only keep
-- a power of ten from being built for an exponent that no number needs.
def toBinary64 (x : Decimal) : Binary64 :=
  if x.digits = 0 then .zero x.negative
  else if 310 < x.scale then .infinite x.negative
  else if x.scale < -330 then .zero x.negative
  else .ofRatio x.negative x.numerator x.denominator

end Decimal

end JsonQuery.Number
