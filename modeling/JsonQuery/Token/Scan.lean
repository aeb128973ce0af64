import JsonQuery.Json.Reader
import JsonQuery.Token.Basic

namespace JsonQuery
open Number

-- A fault and where it lies, counted from the start of the token.
structure Misread where
  fault : LexFault
  offset : Nat

-- What the start of a text was read as, and how many characters were passed over
-- for it. A misreading passes over characters too: scanning may go on behind them.
structure Reading (α : Type) where
  outcome : Except Misread α
  length : Nat

namespace Reading

def map (f : α → β) (r : Reading α) : Reading β := ⟨r.outcome.map f,r.length⟩

def fault (fault : LexFault) (offset length : Nat) : Reading α :=
  ⟨.error ⟨fault,offset⟩,length⟩

end Reading

def isNameStart (c : Char) : Bool := ('a' ≤ c && c ≤ 'z') || ('A' ≤ c && c ≤ 'Z') || c == '_'

def isNameChar (c : Char) : Bool := isNameStart c || isDigit c

def hexRun (text : List Char) : Nat := ((text.take 4).takeWhile isHexDigit).length

-- `seen` characters of the token lie before the text, the opening quote among them.
-- Escapes are those of a document; raw control characters are let through.
def readQuoted (seen : Nat) : List Char → Reading (List Char)
  | [] => .fault (.unterminated .quotedIdentifier) 0 seen
  | '"' :: _ => ⟨.ok [],seen + 1⟩
  | '\\' :: 'u' :: rest =>
    match rest with
    | a :: b :: c :: d :: tail =>
      match hexValue? [a,b,c,d] with
      | none => .fault .badUnicodeEscape seen (seen + 2 + hexRun rest)
      | some code =>
        if isHighSurrogate code then
          match tail with
          | '\\' :: 'u' :: second =>
            match second with
            | e :: f :: g :: h :: tail =>
              match hexValue? [e,f,g,h] with
              | none => .fault .badUnicodeEscape seen (seen + 8 + hexRun second)
              | some low =>
                if isLowSurrogate low then
                  (readQuoted (seen + 12) tail).map (joinSurrogates code low :: ·)
                else .fault .loneSurrogate seen (seen + 12)
            | _ => .fault .badUnicodeEscape seen (seen + 8 + hexRun second)
          | _ => .fault .loneSurrogate seen (seen + 6)
        else if isLowSurrogate code then .fault .badUnicodeEscape seen (seen + 6)
        else (readQuoted (seen + 6) tail).map (Char.ofNat code :: ·)
    | _ => .fault .badUnicodeEscape seen (seen + 2 + hexRun rest)
  | '\\' :: letter :: rest =>
    match shortEscape? letter with
    | some decoded => (readQuoted (seen + 2) rest).map (decoded :: ·)
    | none => .fault (.badEscape letter) seen (seen + 1)
  | c :: rest =>
    if c = '\\' then .fault (.unterminated .quotedIdentifier) 0 (seen + 1)
    else (readQuoted (seen + 1) rest).map (c :: ·)

-- Up to a bare delimiter. A backslash keeps the next character from counting as one,
-- and is dropped only before the delimiter itself.
def readDelimited (form : Enclosed) (delimiter : Char) (seen : Nat) :
    List Char → Reading (List Char)
  | [] => .fault (.unterminated form) 0 seen
  | c :: rest =>
    if c = delimiter then ⟨.ok [],seen + 1⟩
    else if c = '\\' then
      match rest with
      | [] => .fault (.unterminated form) 0 (seen + 1)
      | next :: rest =>
        let kept := if next = delimiter then [next] else ['\\',next]
        (readDelimited form delimiter (seen + 2) rest).map (kept ++ ·)
    else (readDelimited form delimiter (seen + 1) rest).map (c :: ·)

-- What counts as a document is up to its reader; nothing else is asked of it here.
def readLiteral (rest : List Char) (accepts : List Char → Bool := Json.accepts) : Reading TokenKind :=
  let reading := readDelimited .literal '\x60' 1 rest
  match reading.outcome with
  | .error misread => ⟨.error misread,reading.length⟩
  | .ok content =>
    if accepts content then ⟨.ok (.literal (String.ofList content)),reading.length⟩
    else .fault .badLiteral 0 reading.length

-- Integers are signed 64-bit words. A float may overflow: no tree holds one.
def readNumeral (text : List Char) : Reading TokenKind :=
  let n := Numeral.scan text
  if n.whole.isEmpty then .fault .missingDigit 0 n.length
  else if n.isWhole then
    if -0x8000000000000000 ≤ n.wholeValue ∧ n.wholeValue < 0x8000000000000000 then
      ⟨.ok (.integer n.wholeValue),n.length⟩
    else .fault (.outOfRange (String.ofList n.text)) 0 n.length
  else ⟨.ok (.float n.toDecimal.toBinary64),n.length⟩

def nameAt (text : List Char) : List Char :=
  match text with
  | c :: _ => if isNameStart c then text.takeWhile isNameChar else []
  | [] => []

def readSymbol (c : Char) (text : List Char) : Reading TokenKind :=
  match Symbol.scan? text with
  | some s => ⟨.ok (.symbol s),s.text.length⟩
  | none => .fault (.stray c) 0 0

-- The text starts with the token, blanks being passed over before.
def readToken (text : List Char) (accepts : List Char → Bool := Json.accepts) : Reading TokenKind :=
  match text with
  | [] => ⟨.ok .ending,0⟩
  | '"' :: rest => (readQuoted 1 rest).map fun name => .quotedIdentifier (String.ofList name)
  | '\'' :: rest =>
    (readDelimited .rawString '\'' 1 rest).map fun content => .rawString (String.ofList content)
  | '\x60' :: rest => readLiteral rest accepts
  | c :: rest =>
    if c == '-' || isDigit c then readNumeral text
    else if isNameStart c then
      let name := nameAt text
      ⟨.ok (.identifier (String.ofList name)),name.length⟩
    else
      let name := nameAt rest
      if c == '$' && !name.isEmpty then ⟨.ok (.variable (String.ofList name)),name.length + 1⟩
      else readSymbol c text

-- What is left of a text, and where in the whole it starts.
structure Cursor where
  rest : List Char
  position : Position

namespace Cursor

def start (text : String) : Cursor := ⟨text.toList,.start⟩

def advance (c : Cursor) (count : Nat) : Cursor :=
  ⟨c.rest.drop count,c.position.passing (c.rest.take count)⟩

def skipBlanks (c : Cursor) : Cursor := c.advance (c.rest.takeWhile isBlank).length

-- At the end of the text the same ending comes again and again.
def next (c : Cursor) (accepts : List Char → Bool := Json.accepts) : Except LexError Token × Cursor :=
  let first := c.skipBlanks
  let reading := readToken first.rest accepts
  let outcome := match reading.outcome with
    | .ok kind => .ok ⟨kind,String.ofList (first.rest.take reading.length),first.position⟩
    | .error misread => .error ⟨misread.fault,(first.advance misread.offset).position⟩
  (outcome,first.advance reading.length)

end Cursor
end JsonQuery
