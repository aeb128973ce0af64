import JsonQuery.Json.Basic
import JsonQuery.Number.Layout

namespace JsonQuery.Json
open Number

def hexText (n : Nat) : String := String.ofList (Nat.toDigits 16 n)

-- Only what the format requires is escaped; everything else is written as it is.
def escapeChar (c : Char) : String :=
  if c = '"' then "\\\""
  else if c = '\\' then "\\\\"
  else if c = '\x08' then "\\b"
  else if c = '\x0c' then "\\f"
  else if c = '\n' then "\\n"
  else if c = '\r' then "\\r"
  else if c = '\t' then "\\t"
  else if c.toNat < 0x10 then "\\u000" ++ hexText c.toNat
  else if c.toNat < 0x20 then "\\u00" ++ hexText c.toNat
  else c.toString

def quote (s : String) : String := "\"" ++ String.join (s.toList.map escapeChar) ++ "\""

def numericText : Numeric → String
  | .int n => toString n
  | .float x => Layout.document.render x

mutual
def compact : Json → String
  | .null => "null"
  | .bool true => "true"
  | .bool false => "false"
  | .number n => numericText n
  | .string s => quote s
  | .array elements => "[" ++ ",".intercalate (compactElements elements) ++ "]"
  | .object entries => "\x7b" ++ ",".intercalate (compactEntries entries) ++ "\x7d"
termination_by structural v => v

def compactElements : List Json → List String
  | [] => []
  | v :: vs => compact v :: compactElements vs
termination_by structural vs => vs

def compactEntries : List (String × Json) → List String
  | [] => []
  | (key,v) :: es => (quote key ++ ":" ++ compact v) :: compactEntries es
termination_by structural es => es
end

-- One item per line, each level two spaces further in.
def lineBreak (level : Nat) : String := "\n" ++ String.ofList (List.replicate (2 * level) ' ')

mutual
def indented (level : Nat) : Json → String
  | .array (v :: vs) =>
    "[" ++ lineBreak (level + 1)
      ++ ("," ++ lineBreak (level + 1)).intercalate
        (indented (level + 1) v :: indentedElements (level + 1) vs)
      ++ lineBreak level ++ "]"
  | .object ((key,v) :: es) =>
    "\x7b" ++ lineBreak (level + 1)
      ++ ("," ++ lineBreak (level + 1)).intercalate
        ((quote key ++ ": " ++ indented (level + 1) v) :: indentedEntries (level + 1) es)
      ++ lineBreak level ++ "\x7d"
  | .array [] => "[]"
  | .object [] => "\x7b\x7d"
  | .null => "null"
  | .bool b => if b then "true" else "false"
  | .number n => numericText n
  | .string s => quote s
termination_by structural v => v

def indentedElements (level : Nat) : List Json → List String
  | [] => []
  | v :: vs => indented level v :: indentedElements level vs
termination_by structural vs => vs

def indentedEntries (level : Nat) : List (String × Json) → List String
  | [] => []
  | (key,v) :: es => (quote key ++ ": " ++ indented level v) :: indentedEntries level es
termination_by structural es => es
end

end JsonQuery.Json
