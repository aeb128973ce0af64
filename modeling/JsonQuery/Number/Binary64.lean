import JsonQuery.Number.Rounding

namespace JsonQuery.Number

-- Magnitudes are counted in units of 2^-1074, the least positive one, so every
-- finite number is a whole count and sums and comparisons are exact before rounding.
def one : Nat := Nat.pow 2 1074

-- Magnitudes stay below 2^1024.
def limit : Nat := Nat.pow 2 2098

-- Not every count is a number of the format: fifty-three bits, and below the limit.
def Representable (units : Nat) : Prop :=
  units < limit ∧ ∃ bits grain, bits ≤ Nat.pow 2 53 ∧ units = bits * Nat.pow 2 grain

theorem limit_pos : 0 < limit := by
  unfold limit
  apply Nat.pow_pos
  decide

theorem zero_representable : Representable 0 :=
  ⟨limit_pos,0,0,Nat.zero_le _,rfl⟩

-- Double precision with both zeros, both infinities and one not-a-number.
inductive Binary64 where
  | nan
  | infinite (negative : Bool)
  | finite (negative : Bool) (units : Nat) (fits : Representable units)
deriving DecidableEq

namespace Binary64

def zero (negative : Bool) : Binary64 := .finite negative 0 zero_representable

-- The only place where anything is rounded.
def ofRatio (negative : Bool) (num den : Nat) : Binary64 :=
  let units := significand num den * Nat.pow 2 (grain num den)
  if bounded : units < limit then
    .finite negative units ⟨bounded,significand num den,grain num den,significand_le num den,rfl⟩
  else .infinite negative

-- Position on the number line. The infinities sit one step beyond the largest
-- magnitude, the zeros coincide, and not-a-number has no place.
def place? : Binary64 → Option Int
  | .nan => none
  | .infinite negative => some (if negative then -(limit : Int) else limit)
  | .finite negative units _ => some (if negative then -(units : Int) else units)

def compare? (x y : Binary64) : Option Ordering := do
  return compare (← x.place?) (← y.place?)

def ofInt (n : Int) : Binary64 := ofRatio (n < 0) (n.natAbs * one) 1

def abs : Binary64 → Binary64
  | .nan => .nan
  | .infinite _ => .infinite false
  | .finite _ units fits => .finite false units fits

def negated : Binary64 → Binary64
  | .nan => .nan
  | .infinite negative => .infinite (!negative)
  | .finite negative units fits => .finite (!negative) units fits

-- A sum that is exactly nothing is negative only when both terms are.
def add : Binary64 → Binary64 → Binary64
  | .nan, _ | _, .nan => .nan
  | .infinite a, .infinite b => if a = b then .infinite a else .nan
  | .infinite a, _ => .infinite a
  | _, .infinite b => .infinite b
  | .finite a x _, .finite b y _ =>
    let total : Int := (if a then -(x : Int) else x) + (if b then -(y : Int) else y)
    ofRatio (if total = 0 then a && b else total < 0) total.natAbs 1

def sum (terms : List Binary64) : Binary64 := terms.foldl add (zero false)

def dividedBy (x : Binary64) (count : Nat) : Binary64 :=
  match x with
  | .nan => .nan
  | .infinite negative => .infinite negative
  | .finite negative units _ => ofRatio negative units count

-- Nothing times something unbounded is no number, and neither is nothing over nothing.
def times : Binary64 → Binary64 → Binary64
  | .nan, _ | _, .nan => .nan
  | .infinite a, .infinite b => .infinite (a != b)
  | .infinite a, .finite b units _ | .finite a units _, .infinite b =>
    if units = 0 then .nan else .infinite (a != b)
  | .finite a x _, .finite b y _ => ofRatio (a != b) (x * y) one

def quotient : Binary64 → Binary64 → Binary64
  | .nan, _ | _, .nan | .infinite _, .infinite _ => .nan
  | .infinite a, .finite b _ _ => .infinite (a != b)
  | .finite a _ _, .infinite b => .zero (a != b)
  | .finite a x _, .finite b y _ =>
    if y = 0 then (if x = 0 then .nan else .infinite (a != b)) else ofRatio (a != b) (x * one) y

-- Rounding toward one end of the line moves the magnitude up on that side only.
def floor : Binary64 → Binary64
  | .finite negative units _ =>
    let whole := units / one + (if negative && units % one != 0 then 1 else 0)
    ofRatio negative (whole * one) 1
  | x => x

def ceil : Binary64 → Binary64
  | .finite negative units _ =>
    let whole := units / one + (if !negative && units % one != 0 then 1 else 0)
    ofRatio negative (whole * one) 1
  | x => x

-- The whole number it is, when it is one.
def toInt? : Binary64 → Option Int
  | .finite negative units _ =>
    if units % one = 0 then
      some (if negative then -((units / one : Nat) : Int) else (units / one : Nat))
    else none
  | _ => none

def isFinite : Binary64 → Bool
  | .finite .. => true
  | _ => false

def isZero : Binary64 → Bool
  | .finite _ units _ => units == 0
  | _ => false

end Binary64
end JsonQuery.Number
