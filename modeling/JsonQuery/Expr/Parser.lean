import JsonQuery.Expr.Fragment
import JsonQuery.Expr.ParseError
import JsonQuery.Token.Stream

namespace JsonQuery

-- What may stand between or behind complete operands.
inductive Operator where
  | pipe | or | and
  | compare (op : Comparison)
  | flatten | bracket | filter | dot
deriving DecidableEq

namespace Operator

def power : Operator → Nat
  | .pipe => 1
  | .or => 2
  | .and => 3
  | .compare _ => 5
  | .flatten => 6
  | .bracket => 7
  | .filter => 7
  | .dot => 8

-- Between the conjunction and the comparisons.
def notPower : Nat := 4

def ofKind? : TokenKind → Option Operator
  | .symbol .pipe => some .pipe
  | .symbol .or => some .or
  | .symbol .and => some .and
  | .symbol .equal => some (.compare .equal)
  | .symbol .notEqual => some (.compare .notEqual)
  | .symbol .less => some (.compare .less)
  | .symbol .lessEqual => some (.compare .lessEqual)
  | .symbol .greater => some (.compare .greater)
  | .symbol .greaterEqual => some (.compare .greaterEqual)
  | .symbol .flatten => some .flatten
  | .symbol .leftBracket => some .bracket
  | .symbol .filter => some .filter
  | .symbol .dot => some .dot
  | _ => none

end Operator

namespace Parser

-- What was read, and the tokens behind it.
abbrev Parsed (α : Type) := α × TokenStream

-- Reads an expression of operators that bind more strongly than a power.
abbrev SubParser := Nat → TokenStream → Except ParseError (Parsed Expr)

def here (s : TokenStream) : Except ParseError Token := s.current.mapError .lex

-- A token is given up only for the next one, so a fault in the next one is met here.
def advance (s : TokenStream) : Except ParseError (Parsed Token) := do
  let token ← here s
  let _ ← here s.tail
  return (token,s.tail)

def unexpected (token : Token) (expected : Expected) : Except ParseError α :=
  .error (.unexpected token.kind expected token.position)

def isAt (s : TokenStream) (kind : TokenKind) : Bool :=
  match s.current with
  | .ok token => token.kind == kind
  | .error _ => false

def expect (symbol : Symbol) (s : TokenStream) : Except ParseError (Parsed Token) := do
  let token ← here s
  if token.kind = .symbol symbol then advance s else unexpected token (.symbol symbol)

-- Comma-separated expressions up to the closing symbol. `more` counts tokens that are
-- left, and every comma is one of them: with none left only the ending can follow.
def items (sub : SubParser) (closing : Symbol) (expected : Expected) (more : Nat)
    (s : TokenStream) : Except ParseError (Parsed (List Expr)) := do
  let (e,s) ← sub 0 s
  let (token,s) ← advance s
  if token.kind = .symbol .comma then
    match more with
    | 0 => unexpected (← here s) .expression
    | more + 1 =>
      let (es,s) ← items sub closing expected more s
      return (e :: es,s)
  else if token.kind = .symbol closing then return ([e],s)
  else unexpected token expected

def list (sub : SubParser) (s : TokenStream) : Except ParseError (Parsed Expr) := do
  let (es,s) ← items sub .rightBracket .listEnd s.tokens.length s
  return (.list es,s)

def entry (sub : SubParser) (s : TokenStream) : Except ParseError (Parsed (String × Expr)) := do
  let (token,s) ← advance s
  match token.kind with
  | .identifier key | .quotedIdentifier key =>
    let (_,s) ← expect .colon s
    let (e,s) ← sub 0 s
    return ((key,e),s)
  | _ => unexpected token .hashKey

def entries (sub : SubParser) (more : Nat) (s : TokenStream) :
    Except ParseError (Parsed (List (String × Expr))) := do
  let (first,s) ← entry sub s
  let (token,s) ← advance s
  if token.kind = .symbol .comma then
    match more with
    | 0 => unexpected (← here s) .hashKey
    | more + 1 =>
      let (rest,s) ← entries sub more s
      return (first :: rest,s)
  else if token.kind = .symbol .rightBrace then return ([first],s)
  else unexpected token .hashEnd

def hash (sub : SubParser) (s : TokenStream) : Except ParseError (Parsed Expr) := do
  let (es,s) ← entries sub s.tokens.length s
  return (.hash es,s)

-- The stream stands at the parenthesis behind the name.
def call (sub : SubParser) (name : String) (s : TokenStream) : Except ParseError (Parsed Expr) := do
  let (_,s) ← expect .leftParen s
  if isAt s (.symbol .rightParen) then
    let (_,s) ← advance s
    return (.call name [],s)
  else
    let (es,s) ← items sub .rightParen .argumentsEnd s.tokens.length s
    return (.call name es,s)

def fieldOrCall (sub : SubParser) (name : String) (s : TokenStream) :
    Except ParseError (Parsed Expr) :=
  if isAt s (.symbol .leftParen) then call sub name s else .ok (.field name,s)

def quotedField (name : String) (position : Position) (s : TokenStream) :
    Except ParseError (Parsed Expr) :=
  if isAt s (.symbol .leftParen) then .error (.invalid .quotedFunctionName position)
  else .ok (.field name,s)

def binding (sub : SubParser) (s : TokenStream) : Except ParseError (Parsed (String × Expr)) := do
  let (token,s) ← advance s
  match token.kind with
  | .variable name =>
    let (_,s) ← expect .assign s
    let (e,s) ← sub 0 s
    return ((name,e),s)
  | _ => unexpected token .binding

def bindings (sub : SubParser) (more : Nat) (s : TokenStream) :
    Except ParseError (Parsed (List (String × Expr))) := do
  let (first,s) ← binding sub s
  if isAt s (.symbol .comma) then
    let (_,s) ← advance s
    match more with
    | 0 => unexpected (← here s) .binding
    | more + 1 =>
      let (rest,s) ← bindings sub more s
      return (first :: rest,s)
  else return ([first],s)

-- The stream stands at the variable behind the word `let`.
def letIn (sub : SubParser) (s : TokenStream) : Except ParseError (Parsed Expr) := do
  let (bs,s) ← bindings sub s.tokens.length s
  let token ← here s
  if token.kind = .identifier "in" then
    let (_,s) ← advance s
    let (body,s) ← sub 0 s
    return (.letIn bs body,s)
  else unexpected token .inWord

def condition (sub : SubParser) (s : TokenStream) : Except ParseError (Parsed Fragment) := do
  let (e,s) ← sub 0 s
  let (_,s) ← expect .rightBracket s
  return (.filter e,s)

-- A bound, if one is written, and the token behind it.
def slicePart (s : TokenStream) : Except ParseError (Parsed (Option Int × Token)) := do
  let (token,s) ← advance s
  match token.kind with
  | .integer n =>
    let (token,s) ← advance s
    return ((some n,token),s)
  | _ => return ((none,token),s)

-- Behind the first colon.
def sliceFrom (start : Option Int) (s : TokenStream) : Except ParseError (Parsed Fragment) := do
  let ((stop,token),s) ← slicePart s
  match token.kind with
  | .symbol .rightBracket => return (.slice ⟨start,stop,none⟩,s)
  | .symbol .colon =>
    let ((step,token),s) ← slicePart s
    match token.kind with
    | .symbol .rightBracket => return (.slice ⟨start,stop,step⟩,s)
    | .symbol .colon => .error (.invalid .thirdColon token.position)
    | _ => unexpected token .slicePart
  | _ => unexpected token .slicePart

def indexOrSlice (n : Int) (s : TokenStream) : Except ParseError (Parsed Fragment) := do
  let (token,s) ← advance s
  match token.kind with
  | .symbol .rightBracket => return (.index n,s)
  | .symbol .colon => sliceFrom (some n) s
  | _ => unexpected token .slicePart

-- Behind an opening bracket. Nothing is taken when it opens a list instead.
def bracket? (s : TokenStream) : Except ParseError (Option (Parsed Fragment)) := do
  let token ← here s
  match token.kind with
  | .integer n =>
    let (_,s) ← advance s
    let found ← indexOrSlice n s
    return some found
  | .symbol .colon =>
    let (_,s) ← advance s
    let found ← sliceFrom none s
    return some found
  | .symbol .star =>
    let following ← here s.tail
    if following.kind = .symbol .rightBracket then
      let (_,s) ← advance s
      let (_,s) ← advance s
      return some (.wildcard,s)
    else return none
  | _ => return none

def afterDot (sub : SubParser) (s : TokenStream) : Except ParseError (Parsed Fragment) := do
  let (token,s) ← advance s
  match token.kind with
  | .identifier name =>
    let (e,s) ← fieldOrCall sub name s
    return (.select e,s)
  | .quotedIdentifier name =>
    let (e,s) ← quotedField name token.position s
    return (.select e,s)
  | .symbol .star => return (.values,s)
  | .symbol .leftBracket =>
    let (e,s) ← list sub s
    return (.select e,s)
  | .symbol .leftBrace =>
    let (e,s) ← hash sub s
    return (.select e,s)
  | _ => unexpected token .afterDot

def atVariable (s : TokenStream) : Bool :=
  match s.current with
  | .ok ⟨.variable _,_,_⟩ => true
  | _ => false

-- The token that begins an expression has been taken.
def operand (sub : SubParser) (token : Token) (s : TokenStream) :
    Except ParseError (Parsed Expr) := do
  match token.kind with
  | .identifier name =>
    if name == "let" && atVariable s then letIn sub s else fieldOrCall sub name s
  | .quotedIdentifier name => quotedField name token.position s
  | .rawString content => return (.rawString content,s)
  | .literal text => return (.literal text,s)
  | .variable name => return (.variable name,s)
  | .symbol .at => return (.current,s)
  | .symbol .dollar => return (.root,s)
  | .symbol .star => return (Expr.current.apply .values,s)
  | .symbol .not =>
    let (e,s) ← sub Operator.notPower s
    return (.not e,s)
  | .symbol .ampersand =>
    let (e,s) ← sub 0 s
    return (.reference e,s)
  | .symbol .leftParen =>
    let (e,s) ← sub 0 s
    let (_,s) ← expect .rightParen s
    return (e,s)
  | .symbol .leftBrace => hash sub s
  | .symbol .leftBracket =>
    match ← bracket? s with
    | some (piece,s) => return (Expr.current.apply piece,s)
    | none => list sub s
  | .symbol .flatten => return (Expr.current.flattened,s)
  | .symbol .filter =>
    let (piece,s) ← condition sub s
    return (Expr.current.apply piece,s)
  | _ => unexpected token .expression

-- The operator's token has been taken. The right side of a binary operator takes what
-- binds more strongly, so equal powers group to the left.
def continued (sub : SubParser) (left : Expr) (op : Operator) (position : Position)
    (s : TokenStream) : Except ParseError (Parsed Expr) := do
  match op with
  | .pipe =>
    let (right,s) ← sub op.power s
    return (.pipe left right,s)
  | .or =>
    let (right,s) ← sub op.power s
    return (.or left right,s)
  | .and =>
    let (right,s) ← sub op.power s
    return (.and left right,s)
  | .compare comparison =>
    let (right,s) ← sub op.power s
    return (.compare comparison left right,s)
  | .flatten => return (left.flattened,s)
  | .bracket =>
    match ← bracket? s with
    | some (piece,s) => return (left.attach piece,s)
    | none => .error (.invalid .bareList position)
  | .filter =>
    let (piece,s) ← condition sub s
    return (left.attach piece,s)
  | .dot =>
    let (piece,s) ← afterDot sub s
    return (left.attach piece,s)

def operators (sub : SubParser) (power : Nat) :
    Nat → Expr → TokenStream → Except ParseError (Parsed Expr)
  | 0, left, s => .ok (left,s)
  | more + 1, left, s => do
    let token ← here s
    match Operator.ofKind? token.kind with
    | some op =>
      if power < op.power then
        let (_,s) ← advance s
        let (left,s) ← continued sub left op token.position s
        operators sub power more left s
      else return (left,s)
    | none => return (left,s)

-- Bounded by the tokens that are left: whatever is nested in an expression has at
-- least one token less. With none left there is only the refusal of the ending.
def expression : Nat → SubParser
  | 0, _, s => do
    let token ← here s
    unexpected token .expression
  | depth + 1, power, s => do
    let (token,s) ← advance s
    let (left,s) ← operand (expression depth) token s
    operators (expression depth) power s.tokens.length left s

def stream (s : TokenStream) : Except ParseError Expr := do
  let (e,s) ← expression s.tokens.length 0 s
  let token ← here s
  match token.kind with
  | .ending => return e
  | _ => unexpected token .ending

end Parser

def Expr.parse (text : String) (accepts : List Char → Bool := Json.accepts) : Except ParseError Expr :=
  Parser.stream (.ofText text accepts)

end JsonQuery
