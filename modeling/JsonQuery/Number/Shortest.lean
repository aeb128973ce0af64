import JsonQuery.Number.Decimal

namespace JsonQuery.Number

-- Which of two equally near decimals is written.
inductive Tie where
  | even
  | up
deriving DecidableEq

-- The magnitude lies between two neighbours on the grid of multiples of
-- `10 ^ exponent`; `low` is the count of the lower one.
structure Neighbours where
  exponent : Int
  low : Nat
  left : Nat
  den : Nat

def neighbours (units : Nat) (exponent : Int) : Neighbours :=
  let num := units * Nat.pow 10 (-exponent).toNat
  let den := one * Nat.pow 10 exponent.toNat
  ⟨exponent,num / den,num % den,den⟩

def Neighbours.nearer (n : Neighbours) (tie : Tie) : Nat :=
  if 2 * n.left < n.den then n.low
  else if n.den < 2 * n.left then n.low + 1
  else match tie with
    | .even => n.low + n.low % 2
    | .up => n.low + 1

-- The neighbour to write, if one of them reads back as the same number.
def Neighbours.choose? (n : Neighbours) (tie : Tie) (same : Decimal → Bool) : Option Decimal :=
  let decimal (digits : Nat) : Decimal := ⟨false,digits,n.exponent⟩
  match same (decimal n.low), same (decimal (n.low + 1)) with
  | true, true => some (decimal (n.nearer tie))
  | true, false => some (decimal n.low)
  | false, true => some (decimal (n.low + 1))
  | false, false => none

-- The exponent of the leading decimal digit. Any positive magnitude times 10^400
-- exceeds one, so counting the digits of the whole part is enough.
def leadingExponent (units : Nat) : Int :=
  ((Nat.toDigits 10 (units * Nat.pow 10 400 / one)).length : Int) - 401

-- The fewest digits that read back. Seventeen always do; the last line only says
-- what would be written without that fact.
def shortest (tie : Tie) (units : Nat) : Decimal :=
  let lead := leadingExponent units
  let same (x : Decimal) : Bool := x.toBinary64.place? == some (units : Int)
  let grid (count : Nat) : Neighbours := neighbours units (lead - (count : Int) + 1)
  ((List.range' 1 17).findSome? fun count => (grid count).choose? tie same).getD
    ⟨false,(grid 17).nearer tie,(grid 17).exponent⟩

end JsonQuery.Number
