namespace JsonQuery

-- A place in a text: characters before it, and the line and column an editor shows.
-- Lines and columns count from one, and only a line feed starts a new line.
structure Position where
  offset : Nat
  line : Nat
  column : Nat
deriving DecidableEq

namespace Position

def start : Position := ⟨0,1,1⟩

def after (p : Position) (c : Char) : Position :=
  if c = '\n' then ⟨p.offset + 1,p.line + 1,1⟩ else ⟨p.offset + 1,p.line,p.column + 1⟩

def passing (p : Position) (chars : List Char) : Position := chars.foldl after p

def describe (p : Position) : String :=
  "line " ++ toString p.line ++ ", column " ++ toString p.column

end Position
end JsonQuery
