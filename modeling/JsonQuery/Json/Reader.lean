import JsonQuery.Json.Basic
import JsonQuery.Number.Scaled
import JsonQuery.Text.Character

namespace JsonQuery.Json
open Number

-- Documents are refused without a reason: nothing here tells one fault from another.

def skipBlank (text : List Char) : List Char := text.dropWhile isBlank

def afterWord (word : List Char) (text : List Char) : Option (List Char) :=
  if word.isPrefixOf text then some (text.drop word.length) else none

-- After the opening quote, up to and including the closing one.
def readString : List Char → Option (List Char × List Char)
  | [] => none
  | '"' :: rest => some ([],rest)
  | '\\' :: 'u' :: a :: b :: c :: d :: rest => do
    let code ← hexValue? [a,b,c,d]
    if isHighSurrogate code then
      match rest with
      | '\\' :: 'u' :: e :: f :: g :: h :: tail => do
        let low ← hexValue? [e,f,g,h]
        if isLowSurrogate low then
          let (more,tail) ← readString tail
          return (joinSurrogates code low :: more,tail)
        else none
      | _ => none
    else if isLowSurrogate code then none
    else
      let (more,tail) ← readString rest
      return (Char.ofNat code :: more,tail)
  | '\\' :: letter :: rest => do
    let decoded ← shortEscape? letter
    let (more,tail) ← readString rest
    return (decoded :: more,tail)
  | c :: rest => do
    if c.toNat < 0x20 ∨ c = '\\' then none
    else
      let (more,tail) ← readString rest
      return (c :: more,tail)

-- An integer needs to fit a word, signed or not, and minus zero is a float. Floats are read the
-- quick way, not to the nearest double.
def integer? (n : Numeral) : Option Int :=
  let value := n.wholeValue
  if n.isWhole ∧ ¬(n.negative ∧ value = 0) ∧
      -0x8000000000000000 ≤ value ∧ value < 0x10000000000000000 then some value
  else none

def readNumber (text : List Char) : Option (Numeric × List Char) :=
  let n := Numeral.scan text
  let rest := text.drop n.length
  match n.whole with
  | [] => none
  | '0' :: _ :: _ => none
  | _ =>
    match integer? n with
    | some value => some (.int value,rest)
    | none => n.quick?.map fun x => (.float x,rest)

def readScalar : List Char → Option (Json × List Char)
  | '"' :: rest => do
    let (content,tail) ← readString rest
    return (.string (String.ofList content),tail)
  | text@('n' :: _) => (afterWord "null".toList text).map (.null,·)
  | text@('t' :: _) => (afterWord "true".toList text).map (.bool true,·)
  | text@('f' :: _) => (afterWord "false".toList text).map (.bool false,·)
  | text => do
    let (n,tail) ← readNumber text
    return (.number n,tail)

-- The loops are bounded by the characters that are left: every round takes some.
def readElements (value : List Char → Option (Json × List Char)) :
    Nat → List Char → Option (List Json × List Char)
  | 0, _ => none
  | n + 1, text => do
    let (element,rest) ← value (skipBlank text)
    match skipBlank rest with
    | ',' :: rest => do
      let (more,tail) ← readElements value n rest
      return (element :: more,tail)
    | ']' :: tail => return ([element],tail)
    | _ => none

def readEntries (value : List Char → Option (Json × List Char)) :
    Nat → List Char → Option (List (String × Json) × List Char)
  | 0, _ => none
  | n + 1, text => do
    match skipBlank text with
    | '"' :: rest => do
      let (key,rest) ← readString rest
      match skipBlank rest with
      | ':' :: rest => do
        let (entry,rest) ← value (skipBlank rest)
        match skipBlank rest with
        | ',' :: rest => do
          let (more,tail) ← readEntries value n rest
          return ((String.ofList key,entry) :: more,tail)
        | '\x7d' :: tail => return ([(String.ofList key,entry)],tail)
        | _ => none
      | _ => none
    | _ => none

-- At depth zero only scalars are left: every array and object takes one level.
def readValue : Nat → List Char → Option (Json × List Char)
  | 0, text => readScalar text
  | depth + 1, text =>
    match text with
    | '[' :: rest =>
      match skipBlank rest with
      | ']' :: tail => some (.array [],tail)
      | _ => do
        let (elements,tail) ← readElements (readValue depth) rest.length rest
        return (.array elements,tail)
    | '\x7b' :: rest =>
      match skipBlank rest with
      | '\x7d' :: tail => some (.object [],tail)
      | _ => do
        let (entries,tail) ← readEntries (readValue depth) rest.length rest
        return (.ofPairs entries,tail)
    | text => readScalar text

def depthLimit : Nat := 127

def readList (text : List Char) : Option Json := do
  let (value,rest) ← readValue depthLimit (skipBlank text)
  match skipBlank rest with
  | [] => return value
  | _ => none

def read (text : String) : Option Json := readList text.toList

def accepts (text : List Char) : Bool := (readList text).isSome

end JsonQuery.Json
