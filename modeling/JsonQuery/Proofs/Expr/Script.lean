import JsonQuery.Expr.Parser

namespace JsonQuery.Parser

-- What a parser without bounds does. It takes the token in front, looks at it or at the one
-- behind it, calls for an expression inside this one, or goes round as often as its rounds ask.
inductive Script : Type → Type 1 where
  | give (a : α) : Script α
  | refuse (e : ParseError) : Script α
  | take (next : Token → Script α) : Script α
  | look (next : Token → Script α) : Script α
  | peek (next : Token → Script α) : Script α
  | nest (power : Nat) (next : Expr → Script α) : Script α
  | loop (round : σ → Script (σ ⊕ β)) (state : σ) (next : β → Script α) : Script α

namespace Script

def bind : Script α → (α → Script β) → Script β
  | give a, f => f a
  | refuse e, _ => refuse e
  | take next, f => take fun t => (next t).bind f
  | look next, f => look fun t => (next t).bind f
  | peek next, f => peek fun t => (next t).bind f
  | nest power next, f => nest power fun e => (next e).bind f
  | loop round state next, f => loop round state fun b => (next b).bind f

instance : Monad Script where
  pure := give
  bind := bind

-- Behind one round: the next one, or whatever stands behind the loop.
def turn (round : σ → Script (σ ⊕ β)) (next : β → Script α) : σ ⊕ β → Script α
  | .inl state => loop round state next
  | .inr b => next b

theorem bind_assoc (x : Script α) (f : α → Script β) (g : β → Script γ) :
    (x.bind f).bind g = x.bind fun a => (f a).bind g := by
  induction x with
  | give | refuse => rfl
  | take next ih => exact congrArg take (funext fun t => ih t f)
  | look next ih => exact congrArg look (funext fun t => ih t f)
  | peek next ih => exact congrArg peek (funext fun t => ih t f)
  | nest power next ih => exact congrArg (nest power) (funext fun e => ih e f)
  | loop round state next _ ih => exact congrArg (loop round state) (funext fun b => ih b f)

theorem turn_bind (round : σ → Script (σ ⊕ β)) (next : β → Script α) (f : α → Script γ) (step : σ ⊕ β) :
    (turn round next step).bind f = turn round (fun b => (next b).bind f) step := by
  cases step <;> rfl

end Script

-- From the tokens in front to the tokens behind, with what was taken, with the number of
-- expressions that were open at once, and with the answer. Nothing can be taken or looked at where
-- no token is left, so that what has a run stays within its tokens.
inductive Runs (body : Nat → Script Expr) :
    Script α → List Token → List Token → Nat → Except ParseError α → List Token → Prop where
  | give : Runs body (.give a) tape [] 0 (.ok a) tape
  | refuse : Runs body (.refuse e) tape [] 0 (.error e) tape
  | take (later : Runs body (next t) tape taken depth answer after) :
      Runs body (.take next) (t :: tape) (t :: taken) depth answer after
  | look (later : Runs body (next t) (t :: tape) taken depth answer after) :
      Runs body (.look next) (t :: tape) taken depth answer after
  | peek (later : Runs body (next u) (t :: u :: tape) taken depth answer after) :
      Runs body (.peek next) (t :: u :: tape) taken depth answer after
  | nest (inner : Runs body (body power) tape taken depth (.ok e) middle)
      (later : Runs body (next e) middle taken' depth' answer after) :
      Runs body (.nest power next) tape (taken ++ taken') (max (depth + 1) depth') answer after
  | failed (inner : Runs body (body power) tape taken depth (.error e) after) :
      Runs body (.nest power next) tape taken (depth + 1) (.error e) after
  | loop {round : σ → Script (σ ⊕ β)}
      (once : Runs body ((round state).bind (.turn round next)) tape taken depth answer after) :
      Runs body (.loop round state next) tape taken depth answer after

namespace Runs
variable {body : Nat → Script Expr} {tape taken taken' middle after after' : List Token} {depth depth' : Nat}

-- Each token is taken at most once, and in its order.
theorem split {script : Script α} {answer : Except ParseError α}
    (run : Runs body script tape taken depth answer after) : tape = taken ++ after := by
  induction run with
  | give | refuse => rfl
  | take _ ih => exact congrArg (_ :: ·) ih
  | look _ ih | peek _ ih | failed _ ih | loop _ ih => exact ih
  | nest _ _ inner later => rw [inner,later,List.append_assoc]

-- Nothing is seen of what may stand behind the tokens of a run.
theorem append {script : Script α} {answer : Except ParseError α}
    (run : Runs body script tape taken depth answer after) (more : List Token) :
    Runs body script (tape ++ more) taken depth answer (after ++ more) := by
  induction run with
  | give => exact .give
  | refuse => exact .refuse
  | take _ ih => exact .take ih
  | look _ ih => exact .look ih
  | peek _ ih => exact .peek ih
  | nest _ _ inner later => exact .nest inner later
  | failed _ ih => exact .failed ih
  | loop _ ih => exact .loop ih

theorem unique {script : Script α} {answer answer' : Except ParseError α}
    (run : Runs body script tape taken depth answer after)
    (other : Runs body script tape taken' depth' answer' after') :
    taken' = taken ∧ depth' = depth ∧ answer' = answer ∧ after' = after := by
  induction run generalizing taken' depth' after' with
  | give | refuse => cases other; exact ⟨rfl,rfl,rfl,rfl⟩
  | take _ ih =>
      cases other with
      | take later =>
          obtain ⟨rfl,rest⟩ := ih later
          exact ⟨rfl,rest⟩
  | look _ ih => cases other with | look later => exact ih later
  | peek _ ih => cases other with | peek later => exact ih later
  | loop _ ih => cases other with | loop once => exact ih once
  | nest _ _ inner later =>
      cases other with
      | nest inner' later' =>
          obtain ⟨rfl,rfl,same,rfl⟩ := inner inner'
          cases same
          obtain ⟨rfl,rfl,rest⟩ := later later'
          exact ⟨rfl,rfl,rest⟩
      | failed inner' => cases (inner inner').2.2.1
  | failed _ ih =>
      cases other with
      | nest inner' => cases (ih inner').2.2.1
      | failed inner' =>
          obtain ⟨rfl,rfl,same,rfl⟩ := ih inner'
          cases same
          exact ⟨rfl,rfl,rfl,rfl⟩

theorem bind {script : Script α} {f : α → Script β} {a : α} {answer : Except ParseError β}
    (first : Runs body script tape taken depth (.ok a) middle)
    (next : Runs body (f a) middle taken' depth' answer after) :
    Runs body (script.bind f) tape (taken ++ taken') (max depth depth') answer after := by
  generalize whole : Except.ok a = found at first
  induction first with
  | give => cases whole; rw [Nat.zero_max]; exact next
  | refuse | failed => cases whole
  | take _ ih => exact .take (ih next whole)
  | look _ ih => exact .look (ih next whole)
  | peek _ ih => exact .peek (ih next whole)
  | nest inner _ _ ih =>
      rw [List.append_assoc,Nat.max_assoc]
      exact .nest inner (ih next whole)
  | loop _ ih =>
      have once := ih next whole
      rw [Script.bind_assoc] at once
      simp only [Script.turn_bind] at once
      exact .loop once

theorem bind_error {script : Script α} {f : α → Script β} {e : ParseError}
    (first : Runs body script tape taken depth (.error e) after) :
    Runs body (script.bind f) tape taken depth (.error e) after := by
  generalize whole : Except.error e = found at first
  induction first with
  | give => cases whole
  | refuse => cases whole; exact .refuse
  | failed inner => cases whole; exact .failed inner
  | take _ ih => exact .take (ih whole)
  | look _ ih => exact .look (ih whole)
  | peek _ ih => exact .peek (ih whole)
  | nest inner _ _ ih => exact .nest inner (ih whole)
  | loop _ ih =>
      have once := ih (f := f) whole
      rw [Script.bind_assoc] at once
      simp only [Script.turn_bind] at once
      exact .loop once

end Runs

def Script.Opens (script : Script α) : Prop := ∃ next, script = .take next

-- Whatever way it goes, faults included, it takes a token.
def Script.Takes (body : Nat → Script Expr) (script : Script α) : Prop :=
  ∀ tape taken depth answer after, Runs body script tape taken depth answer after → taken ≠ []

section
variable {body : Nat → Script Expr} (opens : ∀ power, (body power).Opens)

theorem Script.Opens.takes {script : Script α} (opens : script.Opens) : script.Takes body := by
  obtain ⟨next,rfl⟩ := opens
  intro tape taken depth answer after run
  cases run
  exact List.cons_ne_nil _ _

include opens

-- An expression inside another has the token to itself with which it opens.
theorem Runs.shallow {script : Script α} {answer : Except ParseError α}
    (run : Runs body script tape taken depth answer after) :
    depth ≤ taken.length ∧ (script.Opens → depth < taken.length) := by
  induction run with
  | give | refuse => exact ⟨Nat.le_refl _,fun ⟨_,not⟩ => nomatch not⟩
  | take _ ih => exact ⟨Nat.le_succ_of_le ih.1,fun _ => Nat.lt_succ_of_le ih.1⟩
  | look _ ih | peek _ ih | loop _ ih => exact ⟨ih.1,fun ⟨_,not⟩ => nomatch not⟩
  | nest _ _ inner later =>
      refine ⟨?_,fun ⟨_,not⟩ => nomatch not⟩
      have open_inside := inner.2 (opens _)
      have behind := later.1
      rw [List.length_append]
      omega
  | failed _ ih => exact ⟨ih.2 (opens _),fun ⟨_,not⟩ => nomatch not⟩

theorem Script.nest_takes (power : Nat) (next : Expr → Script α) : (Script.nest power next).Takes body := by
  intro tape taken depth answer after run
  cases run with
  | nest inner later => exact List.append_ne_nil_of_left_ne_nil ((opens power).takes _ _ _ _ _ inner) _
  | failed inner => exact (opens power).takes _ _ _ _ _ inner

end

end JsonQuery.Parser
