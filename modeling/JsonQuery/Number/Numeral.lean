import JsonQuery.Number.Decimal

namespace JsonQuery.Number

def isDigit (c : Char) : Bool := '0' ≤ c && c ≤ '9'

def digitsValue (digits : List Char) : Nat :=
  digits.foldl (fun value c => value * 10 + (c.toNat - '0'.toNat)) 0

-- The characters of a numeral, part by part. Each part keeps its own marks, so the
-- parts put together are the text again; a part that is not there is empty.
structure Numeral where
  sign : List Char
  whole : List Char
  fraction : List Char
  power : List Char

def signPart : List Char → List Char
  | '-' :: _ => ['-']
  | _ => []

-- A point counts only with a digit behind it.
def fractionPart : List Char → List Char
  | '.' :: rest =>
    match rest.takeWhile isDigit with
    | [] => []
    | digits => '.' :: digits
  | _ => []

def powerSign : List Char → List Char
  | '+' :: _ => ['+']
  | '-' :: _ => ['-']
  | _ => []

-- So does the letter, with at most a sign in between.
def powerPart : List Char → List Char
  | letter :: rest =>
    if letter = 'e' ∨ letter = 'E' then
      let sign := powerSign rest
      match (rest.drop sign.length).takeWhile isDigit with
      | [] => []
      | digits => letter :: sign ++ digits
    else []
  | [] => []

namespace Numeral

-- Greedy from left to right. Without a whole part there is no numeral, and nothing
-- but the sign is taken.
def scan (text : List Char) : Numeral :=
  let sign := signPart text
  let unsigned := text.drop sign.length
  let whole := unsigned.takeWhile isDigit
  if whole.isEmpty then ⟨sign,[],[],[]⟩
  else
    let afterWhole := unsigned.drop whole.length
    let fraction := fractionPart afterWhole
    ⟨sign,whole,fraction,powerPart (afterWhole.drop fraction.length)⟩

def text (n : Numeral) : List Char := n.sign ++ n.whole ++ n.fraction ++ n.power

def length (n : Numeral) : Nat :=
  n.sign.length + n.whole.length + n.fraction.length + n.power.length

def negative (n : Numeral) : Bool := !n.sign.isEmpty

-- Neither fraction nor power: the only numerals that stand for an integer.
def isWhole (n : Numeral) : Bool := n.fraction.isEmpty && n.power.isEmpty

def wholeValue (n : Numeral) : Int :=
  if n.negative then -(digitsValue n.whole : Int) else digitsValue n.whole

def powerValue (n : Numeral) : Int :=
  match n.power.drop 1 with
  | '-' :: digits => -(digitsValue digits : Int)
  | '+' :: digits => digitsValue digits
  | digits => digitsValue digits

def toDecimal (n : Numeral) : Decimal :=
  let places := n.fraction.drop 1
  ⟨n.negative,digitsValue (n.whole ++ places),n.powerValue - places.length⟩

end Numeral

end JsonQuery.Number
