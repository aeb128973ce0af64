import JsonQuery.Json.Basic

namespace JsonQuery.Json

-- Only two numbers or two strings are ordered; strings by code point.
def compare? : Json → Json → Option Ordering
  | .number m, .number n => m.toBinary64.compare? n.toBinary64
  | .string s, .string t => some (compare s t)
  | _, _ => none

-- Entries are looked up on the right by key, so their order does not matter. With
-- distinct keys and equal counts nothing on the right is left over.
mutual
def equals : Json → Json → Bool
  | .null, .null => true
  | .bool a, .bool b => a == b
  | .number m, .number n => m.toBinary64.compare? n.toBinary64 == some .eq
  | .string s, .string t => s == t
  | .array xs, .array ys => xs.length == ys.length && equalElements xs ys
  | .object xs, .object ys => xs.length == ys.length && equalEntries xs ys
  | _, _ => false
termination_by structural v => v

def equalElements : List Json → List Json → Bool
  | x :: xs, y :: ys => equals x y && equalElements xs ys
  | _, _ => true
termination_by structural vs => vs

def equalEntries : List (String × Json) → List (String × Json) → Bool
  | [], _ => true
  | (key,x) :: xs, ys =>
    (match Entries.get? ys key with
      | some y => equals x y
      | none => false) && equalEntries xs ys
termination_by structural es => es
end

end JsonQuery.Json
