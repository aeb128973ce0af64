import JsonQuery.Token.Scan

namespace JsonQuery

-- One token of lookahead. A failed look leaves nothing behind but the cursor, which
-- stands where scanning stopped.
structure Lookahead where
  cursor : Cursor
  peeked : Option Token

namespace Lookahead

def start (text : String) : Lookahead := ⟨.start text,none⟩

def next (l : Lookahead) : Except LexError Token × Lookahead :=
  match l.peeked with
  | some token => (.ok token,⟨l.cursor,none⟩)
  | none =>
    let (outcome,cursor) := l.cursor.next
    (outcome,⟨cursor,none⟩)

def peek (l : Lookahead) : Except LexError Token × Lookahead :=
  match l.next with
  | (.ok token,after) => (.ok token,⟨after.cursor,some token⟩)
  | failed => failed

end Lookahead

-- The tokens of a text, and what comes behind the last: the ending, or the first
-- fault. A reader that stops early never meets the fault.
structure TokenStream where
  tokens : List Token
  ending : Except LexError Token

namespace TokenStream

-- Every token but the ending takes a character, so the characters left are bound
-- enough; with none left there is only the ending.
def within (n : Nat) (c : Cursor) (accepts : List Char → Bool := Json.accepts) : TokenStream :=
  match n with
  | 0 => ⟨[],(c.next accepts).1⟩
  | n + 1 =>
    match c.next accepts with
    | (.error e,_) => ⟨[],.error e⟩
    | (.ok token,after) =>
      match token.kind with
      | .ending => ⟨[],.ok token⟩
      | _ =>
        let later := within n after accepts
        ⟨token :: later.tokens,later.ending⟩

def ofText (text : String) (accepts : List Char → Bool := Json.accepts) : TokenStream :=
  let c := Cursor.start text
  within c.rest.length c accepts

-- The token that comes next; behind the last, the ending again and again.
def current (s : TokenStream) : Except LexError Token :=
  match s.tokens with
  | token :: _ => .ok token
  | [] => s.ending

def tail (s : TokenStream) : TokenStream := { s with tokens := s.tokens.tail }

end TokenStream

-- All tokens with the ending, or the first fault.
def tokenize (text : String) : Except LexError (List Token) :=
  let s := TokenStream.ofText text
  s.ending.map fun ending => s.tokens ++ [ending]

end JsonQuery
