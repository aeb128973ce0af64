import JsonQuery.Number.Shortest

namespace JsonQuery.Number

-- How shortest digits become text. The exponent asked about is that of the
-- leading digit; outside the plain range an explicit power of ten is written.
structure Layout where
  tie : Tie
  plain : Int → Bool
  wholeMark : String
  infinity : String
  notANumber : String

-- Leading digit first, without trailing zeros; zero has the one digit `0`.
structure Digits where
  text : List Char
  lead : Int

def Decimal.toDigits (x : Decimal) : Digits :=
  let written := Nat.toDigits 10 x.digits
  let kept := (written.reverse.dropWhile (· == '0')).reverse
  ⟨if kept.isEmpty then ['0'] else kept,written.length + x.exponent - 1⟩

namespace Digits

def zero : Digits := ⟨['0'],0⟩

def plainText (d : Digits) (wholeMark : String) : String :=
  if d.lead < 0 then
    "0." ++ String.ofList (List.replicate (-d.lead - 1).toNat '0' ++ d.text)
  else
    let width := d.lead.toNat + 1
    let whole := d.text.take width ++ List.replicate (width - d.text.length) '0'
    let rest := d.text.drop width
    String.ofList whole ++ (if rest.isEmpty then wholeMark else "." ++ String.ofList rest)

def powerText (d : Digits) : String :=
  let rest := d.text.drop 1
  String.ofList (d.text.take 1)
    ++ (if rest.isEmpty then "" else "." ++ String.ofList rest)
    ++ (if d.lead < 0 then "e-" else "e+") ++ toString d.lead.natAbs

end Digits

namespace Layout

def render (layout : Layout) : Binary64 → String
  | .nan => layout.notANumber
  | .infinite negative => (if negative then "-" else "") ++ layout.infinity
  | .finite negative units _ =>
    let digits := if units = 0 then .zero else (shortest layout.tie units).toDigits
    (if negative then "-" else "") ++
      (if layout.plain digits.lead then digits.plainText layout.wholeMark else digits.powerText)

-- Documents: a fraction always marks the number as a float, and the exponent has
-- its sign and no padding. There is no text for anything that is not finite.
def document : Layout :=
  ⟨.even,fun lead => -5 ≤ lead && lead ≤ 15,".0","null","null"⟩

-- Messages: never an exponent, and nothing after a whole number.
def message : Layout := ⟨.up,fun _ => true,"","inf","NaN"⟩

end Layout
end JsonQuery.Number
