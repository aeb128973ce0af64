import JsonQuery.Proofs.Expr.Reads
import JsonQuery.Proofs.Expr.Script

-- The parser without a bound on its depth or on its rounds.
namespace JsonQuery.Parser.Unbounded

def token : Script Token := .take .give
def current : Script Token := .look .give
def following : Script Token := .peek .give
def nested (power : Nat) : Script Expr := .nest power .give
def repeated (round : σ → Script (σ ⊕ α)) (state : σ) : Script α := .loop round state .give

def unexpected (t : Token) (expected : Expected) : Script α :=
  .refuse (.unexpected t.kind expected t.position)

def expect (symbol : Symbol) : Script Token := do
  let t ← current
  if t.kind = .symbol symbol then token else unexpected t (.symbol symbol)

-- Up to a closing symbol, with commas between. A round gives what was read so far when a comma
-- follows, and otherwise all of it.
def separatedRound (one : Script α) (closing : Symbol) (expected : Expected) (found : List α) :
    Script (List α ⊕ List α) := do
  let a ← one
  let t ← token
  if t.kind = .symbol .comma then return .inl (found ++ [a])
  else if t.kind = .symbol closing then return .inr (found ++ [a])
  else unexpected t expected

def itemRound (closing : Symbol) (expected : Expected) : List Expr → Script (List Expr ⊕ List Expr) :=
  separatedRound (nested 0) closing expected

def items (closing : Symbol) (expected : Expected) : Script (List Expr) :=
  repeated (itemRound closing expected) []

def list : Script Expr := do
  let es ← items .rightBracket .listEnd
  return .list es

def entry : Script (String × Expr) := do
  let t ← token
  match t.kind with
  | .identifier key | .quotedIdentifier key =>
    let _ ← expect .colon
    let e ← nested 0
    return (key,e)
  | _ => unexpected t .hashKey

def entryRound : List (String × Expr) → Script (List (String × Expr) ⊕ List (String × Expr)) :=
  separatedRound entry .rightBrace .hashEnd

def hash : Script Expr := do
  let es ← repeated entryRound []
  return .hash es

def call (name : String) : Script Expr := do
  let _ ← expect .leftParen
  let t ← current
  if t.kind = .symbol .rightParen then
    let _ ← token
    return .call name []
  else
    let es ← items .rightParen .argumentsEnd
    return .call name es

def fieldOrCall (name : String) : Script Expr := do
  let t ← current
  if t.kind = .symbol .leftParen then call name else return .field name

def quotedField (name : String) (position : Position) : Script Expr := do
  let t ← current
  if t.kind = .symbol .leftParen then .refuse (.invalid .quotedFunctionName position)
  else return .field name

def binding : Script (String × Expr) := do
  let t ← token
  match t.kind with
  | .variable name =>
    let _ ← expect .assign
    let e ← nested 0
    return (name,e)
  | _ => unexpected t .binding

def bindingRound (bs : List (String × Expr)) : Script (List (String × Expr) ⊕ List (String × Expr)) := do
  let b ← binding
  let t ← current
  if t.kind = .symbol .comma then
    let _ ← token
    return .inl (bs ++ [b])
  else return .inr (bs ++ [b])

def letIn : Script Expr := do
  let bs ← repeated bindingRound []
  let t ← current
  if t.kind = .identifier "in" then
    let _ ← token
    let body ← nested 0
    return .letIn bs body
  else unexpected t .inWord

def condition : Script Fragment := do
  let e ← nested 0
  let _ ← expect .rightBracket
  return .filter e

-- What was read behind an opening bracket. The last part may still be to come.
inductive Parts where
  | index (n : Int)
  | stop (start stop : Option Int)
  | step (start stop step : Option Int)

namespace Parts

def colon? : Parts → Option Parts
  | index n => some (stop (some n) none)
  | stop start part => some (step start part none)
  | step .. => none

def number? (n : Int) : Parts → Option Parts
  | stop start none => some (stop start (some n))
  | step start part none => some (step start part (some n))
  | _ => none

def fragment : Parts → Fragment
  | index n => .index n
  | stop start part => .slice ⟨start,part,none⟩
  | step start part last => .slice ⟨start,part,last⟩

end Parts

def sliceStep (parts : Parts) (t : Token) : Script (Parts ⊕ Fragment) :=
  match t.kind with
  | .symbol .rightBracket => return .inr parts.fragment
  | .symbol .colon =>
    match parts.colon? with
    | some parts => return .inl parts
    | none => .refuse (.invalid .thirdColon t.position)
  | .integer n =>
    match parts.number? n with
    | some parts => return .inl parts
    | none => unexpected t .slicePart
  | _ => unexpected t .slicePart

def sliceRound (parts : Parts) : Script (Parts ⊕ Fragment) := do
  let t ← token
  sliceStep parts t

-- The first round of a slice can only take the number or the colon that was seen.
def bracket? : Script (Option Fragment) := do
  let t ← current
  match t.kind with
  | .integer n =>
    let _ ← token
    let piece ← repeated sliceRound (.index n)
    return some piece
  | .symbol .colon =>
    let _ ← token
    let piece ← repeated sliceRound (.stop none none)
    return some piece
  | .symbol .star =>
    let u ← following
    if u.kind = .symbol .rightBracket then
      let _ ← token
      let _ ← token
      return some .wildcard
    else return none
  | _ => return none

def afterDot : Script Fragment := do
  let t ← token
  match t.kind with
  | .identifier name =>
    let e ← fieldOrCall name
    return .select e
  | .quotedIdentifier name =>
    let e ← quotedField name t.position
    return .select e
  | .symbol .star => return .values
  | .symbol .leftBracket =>
    let e ← list
    return .select e
  | .symbol .leftBrace =>
    let e ← hash
    return .select e
  | _ => unexpected t .afterDot

def operand (t : Token) : Script Expr := do
  match t.kind with
  | .identifier name =>
    let u ← current
    if name == "let" && opensBinding [u.kind] then letIn else fieldOrCall name
  | .quotedIdentifier name => quotedField name t.position
  | .rawString content => return .rawString content
  | .literal text => return .literal text
  | .variable name => return .variable name
  | .symbol .at => return .current
  | .symbol .dollar => return .root
  | .symbol .star => return Expr.current.apply .values
  | .symbol .not =>
    let e ← nested Operator.notPower
    return .not e
  | .symbol .ampersand =>
    let e ← nested 0
    return .reference e
  | .symbol .leftParen =>
    let e ← nested 0
    let _ ← expect .rightParen
    return e
  | .symbol .leftBrace => hash
  | .symbol .leftBracket =>
    let piece? ← bracket?
    match piece? with
    | some piece => return Expr.current.apply piece
    | none => list
  | .symbol .flatten => return Expr.current.flattened
  | .symbol .filter =>
    let piece ← condition
    return Expr.current.apply piece
  | _ => unexpected t .expression

def continued (left : Expr) (op : Operator) (position : Position) : Script Expr := do
  match op with
  | .pipe =>
    let right ← nested op.power
    return .pipe left right
  | .or =>
    let right ← nested op.power
    return .or left right
  | .and =>
    let right ← nested op.power
    return .and left right
  | .compare comparison =>
    let right ← nested op.power
    return .compare comparison left right
  | .flatten => return left.flattened
  | .bracket =>
    let piece? ← bracket?
    match piece? with
    | some piece => return left.attach piece
    | none => .refuse (.invalid .bareList position)
  | .filter =>
    let piece ← condition
    return left.attach piece
  | .dot =>
    let piece ← afterDot
    return left.attach piece

def operatorRound (power : Nat) (left : Expr) : Script (Expr ⊕ Expr) := do
  let t ← current
  match Operator.ofKind? t.kind with
  | some op =>
    if power < op.power then
      let _ ← token
      let left ← continued left op t.position
      return .inl left
    else return .inr left
  | none => return .inr left

def expression (power : Nat) : Script Expr := do
  let t ← token
  let left ← operand t
  repeated (operatorRound power) left

def stream : Script Expr := do
  let e ← nested 0
  let t ← current
  match t.kind with
  | .ending => return e
  | _ => unexpected t .ending

theorem expression_opens (power : Nat) : (expression power).Opens := ⟨_,rfl⟩

-- Every round takes a token. The operators alone are asked first whether they go on.
theorem itemRound_takes (closing : Symbol) (expected : Expected) (es : List Expr) :
    (itemRound closing expected es).Takes expression := Script.nest_takes expression_opens 0 _

theorem entryRound_takes (es : List (String × Expr)) : (entryRound es).Takes expression :=
  Script.Opens.takes ⟨_,rfl⟩

theorem bindingRound_takes (bs : List (String × Expr)) : (bindingRound bs).Takes expression :=
  Script.Opens.takes ⟨_,rfl⟩

theorem sliceRound_takes (parts : Parts) : (sliceRound parts).Takes expression :=
  Script.Opens.takes ⟨_,rfl⟩

theorem operatorRound_takes {power : Nat} {left : Expr} {answer : Except ParseError (Expr ⊕ Expr)}
    (run : Runs expression (operatorRound power left) tape taken depth answer after) :
    taken ≠ [] ∨ taken = [] ∧ answer = .ok (.inr left) := by
  cases run with
  | look later =>
      dsimp only [Script.bind] at later
      split at later
      · split at later
        · exact .inl (Script.Opens.takes ⟨_,rfl⟩ _ _ _ _ _ later)
        · cases later
          exact .inr ⟨rfl,rfl⟩
      · cases later
        exact .inr ⟨rfl,rfl⟩

end JsonQuery.Parser.Unbounded
