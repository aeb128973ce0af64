import JsonQuery.Proofs.Expr.Bounded

namespace JsonQuery.Parser

open Unbounded (itemRound entryRound bindingRound sliceRound operatorRound)

-- An ending is the last token that is taken, and there is no expression then. The run does not
-- depend on what stands behind it.
theorem Unbounded.ending_last {tokens before later after : List Token} {t ending : Token} {depth : Nat}
    {answer : Except ParseError Expr}
    (run : Runs expression stream (tokens ++ [ending]) (before ++ t :: later) depth answer after)
    (ends : t.kind = .ending) : later = [] ∧ ∃ e, answer = .error e := by
  obtain ⟨m,follows,-⟩ := stream_follows ends before
  obtain ⟨taken,depth',after',short,left⟩ := follows.answered
  have whole : tokens ++ [ending] = before ++ [t] ++ (later ++ after) := by
    rw [run.split]
    simp only [List.append_assoc,List.cons_append,List.nil_append]
  have long := short.append (later ++ after)
  rw [← whole] at long
  obtain ⟨rfl,rfl,rfl,rest⟩ := run.unique long
  have split := short.split
  simp only [List.append_assoc,List.cons_append] at split
  obtain ⟨rfl,rfl⟩ : later = [] ∧ after' = [] := by
    simpa using split
  cases m with
  | error e => exact ⟨rfl,e,rfl⟩
  | ok found => exact absurd (left found.1 found.2 rfl).symm (List.concat_ne_nil _ _)

-- Each call of an expression and each round of a loop takes a token, faults included; the operators
-- are asked before a round whether there is one. So the tokens suffice for everything, the bounds on
-- depth and rounds never decide, and the parser that has none gives the same answer.
theorem stream_bounded (tokens : List Token) (ending : Token) (ends : ending.kind = .ending) :
    let s : TokenStream := ⟨tokens,.ok ending⟩
    (∀ power, (Unbounded.expression power).Takes Unbounded.expression) ∧
    (∀ closing expected es, (itemRound closing expected es).Takes Unbounded.expression) ∧
    (∀ es, (entryRound es).Takes Unbounded.expression) ∧
    (∀ bs, (bindingRound bs).Takes Unbounded.expression) ∧
    (∀ parts, (sliceRound parts).Takes Unbounded.expression) ∧
    (∀ power left tape taken depth answer after,
      Runs Unbounded.expression (operatorRound power left) tape taken depth answer after →
        taken ≠ [] ∨ taken = [] ∧ answer = .ok (.inr left)) ∧
    (∀ power bound, tokens.length ≤ bound → ∃ taken depth after,
      Runs Unbounded.expression (Unbounded.nested power) (tokens ++ [ending]) taken depth
        ((expression bound power s).map Prod.fst) after ∧
      ∀ e rest, expression bound power s = .ok (e,rest) → after = rest.tokens ++ [ending]) ∧
    ∃ taken depth after,
      (∀ taken' depth' answer after',
        Runs Unbounded.expression Unbounded.stream (tokens ++ [ending]) taken' depth' answer after' ↔
          taken' = taken ∧ depth' = depth ∧ answer = stream s ∧ after' = after) ∧
      tokens ++ [ending] = taken ++ after ∧
      (∀ before t later, taken = before ++ t :: later → t.kind = .ending →
        later = [] ∧ ∃ e, stream s = .error e) ∧
      depth ≤ taken.length ∧ taken.length ≤ tokens.length + 1 := by
  intro s
  obtain ⟨m,follows,same⟩ := Unbounded.stream_follows ends tokens
  obtain ⟨taken,depth,after,run,-⟩ := follows.answered
  rw [same] at run
  have whole := congrArg List.length run.split
  simp only [List.length_append,List.length_singleton] at whole
  refine ⟨fun power => (Unbounded.expression_opens power).takes,Unbounded.itemRound_takes,Unbounded.entryRound_takes,
    Unbounded.bindingRound_takes,Unbounded.sliceRound_takes,?operators,?bounds,
    taken,depth,after,?unique,run.split,?last,(run.shallow Unbounded.expression_opens).1,by omega⟩
  case operators => exact fun _ _ _ _ _ _ _ => Unbounded.operatorRound_takes
  case bounds =>
      intro power bound enough
      exact (Unbounded.expression_follows ends bound power enough).answered
  case unique =>
      refine fun taken' depth' answer after' => ⟨fun other => run.unique other,?_⟩
      rintro ⟨rfl,rfl,rfl,rfl⟩
      exact run
  case last =>
      rintro before t later rfl ends
      exact Unbounded.ending_last run ends

-- Behind a dot nothing but the ending is left to take.
theorem stream_bounded_dangling :
    let ending : Token := ⟨.ending,"",⟨2,1,3⟩⟩
    let tokens : List Token := [⟨.identifier "a","a",⟨0,1,1⟩⟩,⟨.symbol .dot,".",⟨1,1,2⟩⟩]
    ending.kind = .ending ∧ stream ⟨tokens,.ok ending⟩ = .error (.unexpected .ending .afterDot ⟨2,1,3⟩) ∧
      ∃ taken depth after, Runs Unbounded.expression Unbounded.stream (tokens ++ [ending]) taken depth
        (stream ⟨tokens,.ok ending⟩) after ∧ taken = tokens ++ [ending] ∧ depth = 1 ∧ depth ≤ taken.length := by
  intro ending tokens
  obtain ⟨-,-,-,-,-,-,-,taken,depth,after,exact,-,-,shallow,-⟩ := stream_bounded tokens ending rfl
  have run : Runs Unbounded.expression Unbounded.stream (tokens ++ [ending]) (tokens ++ [ending]) 1
      (.error (.unexpected .ending .afterDot ⟨2,1,3⟩)) [] :=
    .failed (.take (.look (.look (.loop (.look (.take (.take .refuse)))))))
  obtain ⟨rfl,rfl,answer,rfl⟩ := (exact _ _ _ _).mp run
  exact ⟨rfl,answer.symm,_,_,_,answer ▸ run,rfl,rfl,shallow⟩

end JsonQuery.Parser
