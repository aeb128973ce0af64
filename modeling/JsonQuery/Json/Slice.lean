import JsonQuery.Json.Basic

namespace JsonQuery

-- Bounds as written; one that is not written takes its default from the direction.
structure Slice where
  start : Option Int
  stop : Option Int
  step : Option Int
deriving DecidableEq

-- A negative bound counts from the end. A bound beyond either end stands just past
-- it, on the side the walk comes from or runs to.
def clampBound (length step bound : Int) : Int :=
  if bound < 0 then
    if 0 ≤ bound + length then bound + length
    else if step < 0 then -1
    else 0
  else if length ≤ bound then
    if step < 0 then length - 1 else length
  else bound

def sliceBounds (length : Int) (start stop : Option Int) (step : Int) : Int × Int :=
  let first := match start with
    | some bound => clampBound length step bound
    | none => if step < 0 then length - 1 else 0
  let last := match stop with
    | some bound => clampBound length step bound
    | none => if step < 0 then -1 else length
  (first,last)

-- Signed 64-bit words, in which positions are counted.
def IsWord (n : Int) : Prop := -0x8000000000000000 ≤ n ∧ n < 0x8000000000000000

instance (n : Int) : Decidable (IsWord n) := inferInstanceAs (Decidable (_ ∧ _))

-- The stop lies ahead.
def Onward (stop step position : Int) : Prop :=
  (0 < step ∧ position < stop) ∨ (step < 0 ∧ stop < position)

instance (stop step position : Int) : Decidable (Onward stop step position) :=
  inferInstanceAs (Decidable (_ ∨ _))

-- The positions on the way to the stop, from the first on. Where the next one would be no word
-- the way ends.
def walk (stop step position : Int) : List Int :=
  if Onward stop step position then
    position :: if IsWord (position + step) then walk stop step (position + step) else []
  else []
termination_by (if 0 < step then stop - position else position - stop).toNat
decreasing_by
  rename_i ahead _
  unfold Onward at ahead
  split <;> omega

-- A position as the index of an element: what is negative lies far behind the last one.
def asIndex (position : Int) : Nat := (position % 0x10000000000000000).toNat

namespace Json

-- Every position on the way is inside the array, so no element is skipped here.
def sliceElements (elements : List Json) (slice : Slice) (step : Int) : List Json :=
  let bounds := sliceBounds elements.length slice.start slice.stop step
  (walk bounds.2 step bounds.1).filterMap fun position => elements[asIndex position]?

def atIndex (v : Json) (index : Int) : Json :=
  let position := if index < 0 then index + v.elements.length else index
  if position < 0 then .null else (v.element? position.toNat).getD .null

-- One level of nesting is removed; anything but an array has no such level.
def flatten : Json → Json
  | .array elements => .array (elements.flatMap fun
    | .array inner => inner
    | element => [element])
  | _ => .null

end Json
end JsonQuery
