import JsonQuery.Text.Visible

namespace JsonQuery

-- Shape of a value as shown to a person looking for a mistake: either on one line
-- or one item per line.
inductive Outline where
  | text (s : String)
  | tuple (name : String) (items : List Outline)
  | record (name : String) (fields : List (String × Outline)) (more : Bool)
  | list (lead : String) (items : List Outline)
  | table (lead : String) (rows : List (String × Outline))

namespace Outline

def visibleChar (c : Char) : String :=
  if c = '\x00' then "\\0"
  else if c = '\t' then "\\t"
  else if c = '\r' then "\\r"
  else if c = '\n' then "\\n"
  else if c = '"' then "\\\""
  else if c = '\\' then "\\\\"
  else if isVisible c then c.toString
  else "\\u\x7b" ++ String.ofList (Nat.toDigits 16 c.toNat) ++ "\x7d"

def quote (s : String) : String := "\"" ++ String.join (s.toList.map visibleChar) ++ "\""

def string (s : String) : Outline := .text (quote s)

def option (f : α → Outline) : Option α → Outline
  | none => .text "None"
  | some x => .tuple "Some" [f x]

mutual
def oneLine : Outline → String
  | .text s => s
  | .tuple name items => name ++ "(" ++ ", ".intercalate (oneLineItems items) ++ ")"
  | .record name fields more =>
    name ++ " \x7b " ++ ", ".intercalate (oneLineFields fields ++ (if more then [".."] else []))
      ++ " \x7d"
  | .list lead items => lead ++ "[" ++ ", ".intercalate (oneLineItems items) ++ "]"
  | .table lead rows => lead ++ "\x7b" ++ ", ".intercalate (oneLineFields rows) ++ "\x7d"
termination_by structural o => o

def oneLineItems : List Outline → List String
  | [] => []
  | item :: items => oneLine item :: oneLineItems items
termination_by structural items => items

def oneLineFields : List (String × Outline) → List String
  | [] => []
  | (name,item) :: fields => (name ++ ": " ++ oneLine item) :: oneLineFields fields
termination_by structural fields => fields
end

-- Levels are four spaces apart, and an item ends with a comma even if it is the last.
def line (level : Nat) (content : String) : String :=
  "\n" ++ String.ofList (List.replicate (4 * level) ' ') ++ content

def block (level : Nat) (opening : String) (lines : List String) (closing : String) : String :=
  match lines with
  | [] => opening ++ closing
  | _ => opening ++ String.join (lines.map (line (level + 1))) ++ line level closing

mutual
def manyLines (level : Nat) : Outline → String
  | .text s => s
  | .tuple name items => block level (name ++ "(") (manyLinesItems (level + 1) items) ")"
  | .record name fields more =>
    block level (name ++ " \x7b")
      (manyLinesFields (level + 1) fields ++ (if more then [".."] else [])) "\x7d"
  | .list lead items => block level (lead ++ "[") (manyLinesItems (level + 1) items) "]"
  | .table lead rows => block level (lead ++ "\x7b") (manyLinesFields (level + 1) rows) "\x7d"
termination_by structural o => o

def manyLinesItems (level : Nat) : List Outline → List String
  | [] => []
  | item :: items => (manyLines level item ++ ",") :: manyLinesItems level items
termination_by structural items => items

def manyLinesFields (level : Nat) : List (String × Outline) → List String
  | [] => []
  | (name,item) :: fields =>
    (name ++ ": " ++ manyLines level item ++ ",") :: manyLinesFields level fields
termination_by structural fields => fields
end

end Outline
end JsonQuery
