import JsonQuery.Builtin.Basic
import JsonQuery.Builtin.Keyed
import JsonQuery.Function.Registry
import JsonQuery.Json.Reader

namespace JsonQuery
open Number

namespace Builtin

def numbers (v : Json) : List Binary64 := v.elements.filterMap Json.asNumber?

def avgBody (v : Json) : Json :=
  match numbers v with
  | [] => .null
  | terms => .ofBinary64 ((Binary64.sum terms).dividedBy terms.length)

def sumBody (v : Json) : Json := .ofBinary64 (Binary64.sum (numbers v))

def occursIn (needle : List Char) : List Char → Bool
  | [] => needle.isEmpty
  | c :: rest => needle.isPrefixOf (c :: rest) || occursIn needle rest

-- Part of a text for strings, an equal element for arrays.
def containsBody (subject search : Json) : Bool :=
  match subject, search with
  | .string s, .string t => occursIn t.toList s.toList
  | .string _, _ => false
  | _, _ => subject.elements.any fun element => element.equals search

def joinBody (glue : String) (v : Json) : Json :=
  .string (glue.intercalate (v.elements.filterMap Json.asString?))

-- Characters of a string, elements of an array, entries of an object.
def lengthBody (v : Json) : Json :=
  let count := match v with
    | .string s => s.length
    | _ => v.length
  .ofBinary64 (.ofInt count)

def reverseBody : Json → Json
  | .string s => .string (String.ofList s.toList.reverse)
  | v => .array v.elements.reverse

def extremeBody (wins : Ordering) (v : Json) : Json :=
  (Json.extremeOn wins id v.elements).getD .null

def sortBody (v : Json) : Json := .array (Json.sortOn id v.elements)

-- A merge on its way: what was taken so far, and where in it each key stands.
structure Merging where
  entries : Entries
  positions : List (String × Nat)

namespace Merging

-- A key stays where it came first and takes the value that came last.
def take (m : Merging) (key : String) (value : Json) : Merging :=
  match m.positions.lookup key with
  | some position => { m with entries := m.entries.modify position fun entry => (entry.1,value) }
  | none => ⟨m.entries ++ [(key,value)],(key,m.entries.length) :: m.positions⟩

def copy (v : Json) (m : Merging) (key : String) : Merging :=
  match v.property? key with
  | some value => m.take key value
  | none => m

-- What is no object has nothing to give.
def absorb (m : Merging) (v : Json) : Merging :=
  if v.kind = .object then v.keys.foldl (copy v) m else m

end Merging

def mergeBody (objects : List Json) : Json :=
  .ofPairs (objects.foldl Merging.absorb ⟨[],[]⟩).entries

def toArrayBody : Json → Json
  | .array elements => .array elements
  | v => .array [v]

-- A string is read as a document; anything but a number in it is as good as nothing.
def toNumberBody : Json → Json
  | .number n => .number n
  | .string s =>
    match Json.read s with
    | some (.number n) => .number n
    | _ => .null
  | _ => .null

def toStringBody : Json → Json
  | .string s => .string s
  | v => .string v.compact

def notNullBody (arguments : List Argument) : Json :=
  ((arguments.filterMap Argument.value?).find? fun v => !v.isNull).getD .null

def body (b : Builtin) (arguments : List Argument) : Except EvalError Json :=
  match b with
  | .abs => do return .ofBinary64 (← Arguments.number arguments 0).abs
  | .avg => do return avgBody (← Arguments.value arguments 0)
  | .ceil => do return .ofBinary64 (← Arguments.number arguments 0).ceil
  | .floor => do return .ofBinary64 (← Arguments.number arguments 0).floor
  | .sum => do return sumBody (← Arguments.value arguments 0)
  | .contains => do
    let subject ← Arguments.value arguments 0
    let search ← Arguments.value arguments 1
    return .bool (containsBody subject search)
  | .endsWith => do
    let subject ← Arguments.string arguments 0
    let ending ← Arguments.string arguments 1
    return .bool (ending.toList.isSuffixOf subject.toList)
  | .startsWith => do
    let subject ← Arguments.string arguments 0
    let beginning ← Arguments.string arguments 1
    return .bool (beginning.toList.isPrefixOf subject.toList)
  | .join => do
    let glue ← Arguments.string arguments 0
    return joinBody glue (← Arguments.value arguments 1)
  | .length => do return lengthBody (← Arguments.value arguments 0)
  | .max => do return extremeBody .gt (← Arguments.value arguments 0)
  | .min => do return extremeBody .lt (← Arguments.value arguments 0)
  | .reverse => do return reverseBody (← Arguments.value arguments 0)
  | .sort => do return sortBody (← Arguments.value arguments 0)
  | .keys => do return .array ((← Arguments.value arguments 0).keys.map .string)
  | .values => do return .array (← Arguments.value arguments 0).values
  | .merge => do
    return mergeBody (← (List.range arguments.length).mapM (Arguments.value arguments))
  | .toArray => do return toArrayBody (← Arguments.value arguments 0)
  | .toNumber => do return toNumberBody (← Arguments.value arguments 0)
  | .toString => do return toStringBody (← Arguments.value arguments 0)
  | .type => do return .string (← Arguments.value arguments 0).kind.name
  | .notNull => return notNullBody arguments
  | .map => mapBody arguments
  | .sortBy => sortByBody arguments
  | .minBy => extremeByBody "min_by" .lt arguments
  | .maxBy => extremeByBody "max_by" .gt arguments

-- None of them looks at the current value.
def function (b : Builtin) : Function := ⟨b.name,b.signature,fun arguments _ => b.body arguments⟩

def modules : List FunctionModule :=
  groups.map fun group => ⟨group.1,group.2.map function⟩

end Builtin

def Registry.builtins : Registry := Builtin.modules.foldl registerModule empty

end JsonQuery
