import JsonQuery.Json.Order

namespace JsonQuery.Json

-- What is not ordered counts as equal; no sort that is reached with such values
-- depends on it.
def notAfter (v w : Json) : Bool := (compare? v w).getD .eq != .gt

-- Stable: equals stay in the order they come in.
def sortOn (key : α → Json) (items : List α) : List α :=
  items.mergeSort fun x y => notAfter (key x) (key y)

-- A later item takes the place only when it wins outright.
def challenge (wins : Ordering) (key : α → Json) (best : Option α) (item : α) : Option α :=
  match best with
  | none => some item
  | some holder => if compare? (key item) (key holder) = some wins then some item else some holder

def extremeOn (wins : Ordering) (key : α → Json) (items : List α) : Option α :=
  items.foldl (challenge wins key) none

end JsonQuery.Json
