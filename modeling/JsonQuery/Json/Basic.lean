import JsonQuery.Number.Binary64

namespace JsonQuery
open Number

inductive Kind where
  | null | boolean | number | string | array | object
deriving DecidableEq

def Kind.name : Kind → String
  | .null => "null"
  | .boolean => "boolean"
  | .number => "number"
  | .string => "string"
  | .array => "array"
  | .object => "object"

-- An integer keeps its digits however large; only arithmetic and comparison look at
-- it as a double.
inductive Numeric where
  | int (n : Int)
  | float (x : Binary64)
deriving DecidableEq

def Numeric.toBinary64 : Numeric → Binary64
  | .int n => .ofInt n
  | .float x => x

-- Entries stay in the order of their first appearance. That no key comes twice is
-- not part of the type; it is what `Entries.ofList` establishes.
inductive Json where
  | null
  | bool (b : Bool)
  | number (n : Numeric)
  | string (s : String)
  | array (elements : List Json)
  | object (entries : List (String × Json))

instance : Inhabited Json := ⟨.null⟩

abbrev Entries := List (String × Json)

namespace Entries

def get? (entries : Entries) (key : String) : Option Json :=
  (List.find? (·.1 == key) entries).map (·.2)

-- A key that is present keeps its place and takes the new value.
def put (entries : Entries) (key : String) (value : Json) : Entries :=
  match entries with
  | [] => [(key,value)]
  | entry :: rest =>
    if entry.1 = key then (entry.1,value) :: rest else entry :: put rest key value

def ofList (pairs : List (String × Json)) : Entries :=
  pairs.foldl (fun entries pair => put entries pair.1 pair.2) []

end Entries

namespace Json

def kind : Json → Kind
  | .null => .null
  | .bool _ => .boolean
  | .number _ => .number
  | .string _ => .string
  | .array _ => .array
  | .object _ => .object

def isNull : Json → Bool
  | .null => true
  | _ => false

-- Of the scalars only; the length of a string is the business of a function.
def length : Json → Nat
  | .array elements => elements.length
  | .object entries => entries.length
  | _ => 0

def elements : Json → List Json
  | .array elements => elements
  | _ => []

def entries : Json → Entries
  | .object entries => entries
  | _ => []

def keys (v : Json) : List String := v.entries.map (·.1)

def values (v : Json) : List Json := v.entries.map (·.2)

def property? (v : Json) (name : String) : Option Json := Entries.get? v.entries name

def element? (v : Json) (index : Nat) : Option Json := v.elements[index]?

def asBool? : Json → Option Bool
  | .bool b => some b
  | _ => none

def asString? : Json → Option String
  | .string s => some s
  | _ => none

def asNumber? : Json → Option Binary64
  | .number n => some n.toBinary64
  | _ => none

-- A computed number is an integer whenever it is whole and a signed 64-bit word
-- holds it. What is not finite has no place in a document.
def ofBinary64 (x : Binary64) : Json :=
  match x.toInt? with
  | some n => if -0x8000000000000000 ≤ n ∧ n < 0x8000000000000000 then .number (.int n) else .number (.float x)
  | none => if x.isFinite then .number (.float x) else .null

def ofPairs (pairs : List (String × Json)) : Json := .object (Entries.ofList pairs)

-- False, null and everything empty; zero is not among them.
def truthy : Json → Bool
  | .null => false
  | .bool b => b
  | .number _ => true
  | .string s => !s.isEmpty
  | .array elements => !elements.isEmpty
  | .object entries => !entries.isEmpty

end Json
end JsonQuery
