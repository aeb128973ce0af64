import JsonQuery.Proofs.Expr.Grammar
import JsonQuery.Proofs.Expr.Postfix
import JsonQuery.Proofs.Expr.Tree
import JsonQuery.Proofs.Token.Spelling

namespace JsonQuery

open JsonQuery.Parser (bound)

def grouped (ks : List TokenKind) : List TokenKind :=
  .symbol .leftParen :: (ks ++ [.symbol .rightParen])

def commas : List (List TokenKind) → List TokenKind
  | [] => []
  | ks :: others => ks ++ others.flatMap (.symbol .comma :: ·)

-- Both sides stand in parentheses, so no power is ever asked for.
def joined (op : Operator) (left right : List TokenKind) : List TokenKind :=
  grouped left ++ .symbol op.symbol :: grouped right

def bracketed (ks : List TokenKind) : List TokenKind :=
  .symbol .leftBracket :: (ks ++ [.symbol .rightBracket])

def tested (condition : List TokenKind) : List TokenKind :=
  .symbol .filter :: (grouped condition ++ [.symbol .rightBracket])

def Slice.phrase (s : Slice) : List TokenKind :=
  bracketed (bound s.start ++ .symbol .colon :: (bound s.stop ++
    match s.step with
    | some n => [.symbol .colon,.integer n]
    | none => []))

namespace Expr

-- A slice or a flattening makes the projection it is the base of, with no sign of its own.
def selects : Expr → Bool
  | .slice _ | .flatten _ => true
  | .within _ right => selects right
  | _ => false
termination_by structural e => e

def based (behind : Bool) (ks : List TokenKind) : List TokenKind := if behind then ks else grouped ks

def dotted (behind : Bool) (ks : List TokenKind) : List TokenKind :=
  if behind then .symbol .dot :: ks else ks

def entryFront (key : String) : List TokenKind := [.quotedIdentifier key,.symbol .colon]

def bindingFront (name : String) : List TokenKind := [.variable name,.symbol .assign]

-- The tokens that a tree is printed as, on its own or, `behind` a projection, as the pieces
-- that run on its elements. What a chain stands on is put in parentheses.
mutual
def phrase (behind : Bool) : Expr → List TokenKind
  | .current => if behind then [] else [.symbol .at]
  | .root => [.symbol .dollar]
  | .variable name => [.variable name]
  | .field name => dotted behind [.quotedIdentifier name]
  | .index i => bracketed [.integer i]
  | .slice s => s.phrase
  | .within left right => based behind (phrase behind left) ++ phrase true right
  | .flatten e => based behind (phrase behind e) ++ [.symbol .flatten]
  | .projectArray left rest =>
    (if left.selects then phrase behind left
      else based behind (phrase behind left) ++ bracketed [.symbol .star]) ++ restPhrase rest
  | .projectObject left rest =>
    based behind (phrase behind left) ++ [.symbol .dot,.symbol .star] ++ restPhrase rest
  | .filter left condition rest =>
    based behind (phrase behind left) ++ tested (phrase false condition) ++ restPhrase rest
  | .pipe left right => joined .pipe (phrase false left) (phrase false right)
  | .or left right => joined .or (phrase false left) (phrase false right)
  | .and left right => joined .and (phrase false left) (phrase false right)
  | .not e => .symbol .not :: grouped (phrase false e)
  | .compare op left right => joined (.compare op) (phrase false left) (phrase false right)
  | .list elements => dotted behind (bracketed (commas (phrases elements)))
  | .hash entries => dotted behind (.symbol .leftBrace ::
      (commas (namedPhrases entryFront entries) ++
      [.symbol .rightBrace]))
  | .call name arguments =>
    dotted behind (.identifier name :: grouped (commas (phrases arguments)))
  | .reference e => .symbol .ampersand :: grouped (phrase false e)
  | .literal text => [.literal text]
  | .rawString s => [.rawString s]
  | .letIn bindings body => .identifier "let" ::
      (commas (namedPhrases bindingFront bindings) ++ .identifier "in" :: grouped (phrase false body))
termination_by structural e => e

def restPhrase : Option Expr → List TokenKind
  | none => []
  | some rest => phrase true rest
termination_by structural rest => rest

def phrases : List Expr → List (List TokenKind)
  | [] => []
  | e :: es => grouped (phrase false e) :: phrases es
termination_by structural es => es

def namedPhrases (front : String → List TokenKind) : List (String × Expr) → List (List TokenKind)
  | [] => []
  | (name, e) :: es => (front name ++ grouped (phrase false e)) :: namedPhrases front es
termination_by structural es => es
end

theorem phrases_map (es : List Expr) : phrases es = es.map fun e => grouped (e.phrase false) := by
  induction es with
  | nil => rfl
  | cons e es ih => exact congrArg (grouped (e.phrase false) :: ·) ih

theorem namedPhrases_map (front : String → List TokenKind) (es : List (String × Expr)) :
    namedPhrases front es = es.map fun entry => front entry.1 ++ grouped (entry.2.phrase false) := by
  induction es with
  | nil => rfl
  | cons entry es ih => exact congrArg ((front entry.1 ++ grouped (entry.2.phrase false)) :: ·) ih

def render (e : Expr) : String := " ".intercalate ((e.phrase false).map TokenKind.spelling)

end Expr

def Fragment.phrase : Fragment → List TokenKind
  | .select right => right.phrase true
  | .index i => bracketed [.integer i]
  | .slice s => s.phrase
  | .wildcard => bracketed [.symbol .star]
  | .values => [.symbol .dot,.symbol .star]
  | .filter condition => tested (condition.phrase false)

namespace Expr

-- At the end of a chain of projections nothing is left without a sign.
def Spine : Expr → Prop
  | .projectArray _ (some rest) | .projectObject _ (some rest) | .filter _ _ (some rest) => Spine rest
  | e => e.selects = false
termination_by structural e => e

theorem Spine.signed {e : Expr} (spine : e.Spine) : e.selects = false := by
  cases e with
  | projectArray | projectObject | filter => rfl
  | _ => exact spine

theorem andThen_within {left : Expr} (step : left ≠ .current) (right : Expr) :
    left.andThen right = .within left right := by
  cases left <;> first | rfl | exact absurd rfl step

theorem andThen_phrase {left : Expr} (step : behind = true ∨ left ≠ .current) (right : Expr) :
    (left.andThen right).phrase behind = based behind (left.phrase behind) ++ right.phrase true := by
  by_cases here : left = .current
  · subst here
    obtain rfl := step.resolve_right (absurd rfl)
    rfl
  · rw [andThen_within here,phrase]

theorem andThen_selects (left : Expr) (s : Slice) : (left.andThen (.slice s)).selects = true := by
  cases left <;> rfl

-- On the result of a whole a piece stands behind its parentheses.
theorem apply_phrase {e : Expr} (signed : e.selects = false) (step : behind = true ∨ e ≠ .current)
    (f : Fragment) : (e.apply f).phrase behind = based behind (e.phrase behind) ++ f.phrase := by
  cases f with
  | select right => exact andThen_phrase step right
  | index i => exact andThen_phrase step (.index i)
  | slice s =>
      rw [apply,phrase,if_pos (andThen_selects e s),restPhrase,List.append_nil]
      exact andThen_phrase step (.slice s)
  | wildcard => simp [apply,phrase,signed,restPhrase,Fragment.phrase]
  | values => simp [apply,phrase,restPhrase,Fragment.phrase]
  | filter condition => simp [apply,phrase,restPhrase,Fragment.phrase]

theorem opened_phrase (f : Fragment) : (current.apply f).phrase true = f.phrase :=
  apply_phrase rfl (.inl rfl) f

-- Behind a projection it stands behind what is printed already.
theorem attach_phrase {e : Expr} (spine : e.Spine) (chain : e.isProjection = true ∨ behind = true) :
    (e.attach f).phrase behind = e.phrase behind ++ f.phrase := by
  induction e generalizing behind with
  | projectArray left rest _ later | projectObject left rest _ later | filter left _ rest _ _ later =>
      cases rest with
      | none => simp only [attach,phrase,restPhrase,opened_phrase,List.append_nil]
      | some rest =>
          have last := later rest rfl spine (.inr rfl)
          simp only [attach,phrase,restPhrase,last,List.append_assoc]
  | _ =>
      obtain rfl := chain.resolve_left Bool.false_ne_true
      exact apply_phrase spine.signed (.inl rfl) f

theorem Spine.attach {e : Expr} (spine : e.Spine) (piece : ∀ right, f = .select right → right.Spine) :
    (e.attach f).Spine := by
  have apply : ∀ e : Expr, (e.apply f).Spine := by
    intro e
    cases f with
    | select right =>
        have signed := piece right rfl
        by_cases here : e = .current
        · subst here
          exact signed
        · rw [Expr.apply,andThen_within here]
          exact signed.signed
    | index i => cases e <;> rfl
    | _ => rfl
  induction e with
  | projectArray left rest _ later | projectObject left rest _ later | filter left _ rest _ _ later =>
      cases rest with
      | none => exact apply .current
      | some rest => exact later rest rfl spine
  | _ => exact apply _

end Expr
end JsonQuery
