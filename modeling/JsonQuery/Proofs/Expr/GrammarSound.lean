import JsonQuery.Proofs.Expr.Grammar

namespace JsonQuery.Parser

open Grammar

theorem ReadsBracket.derived (read : ReadsBracket ks f rest) :
    ∃ y, ks = y ++ rest ∧ Bracket (.symbol .leftBracket :: y) := by
  cases read with
  | index => exact ⟨[_,_],rfl,.index⟩
  | slice =>
      rename_i start stop
      exact ⟨bound start ++ .symbol .colon :: (bound stop ++ [.symbol .rightBracket]),by simp,.slice⟩
  | stepped =>
      rename_i start stop step
      exact ⟨bound start ++ .symbol .colon :: (bound stop ++ .symbol .colon ::
        (bound step ++ [.symbol .rightBracket])),by simp,.stepped⟩
  | wildcard => exact ⟨[_,_],rfl,.wildcard⟩

mutual
theorem Reads.derived : Reads power ks e rest → ∃ y, ks = y ++ rest ∧ Expression y
  | .expression first more => by
      obtain ⟨y,rfl,left⟩ := first.derived
      obtain ⟨z,rfl,continued⟩ := more.derived
      exact ⟨_ :: (y ++ z),by simp,continued _ left⟩

theorem ReadsOperand.derived :
    ReadsOperand kind ks e rest → ∃ y, ks = y ++ rest ∧ Expression (kind :: y)
  | .field _ _ => ⟨[],rfl,Atom.identifier.expression⟩
  | .call arguments => by
      obtain ⟨y,rfl,called⟩ := arguments.derived
      exact ⟨_ :: y,rfl,(Atom.call (called _)).expression⟩
  | .letIn names inner => by
      obtain ⟨v,rfl,named⟩ := names.derived
      obtain ⟨y,rfl,body⟩ := inner.derived
      refine ⟨v ++ .identifier "in" :: y,by simp,?_⟩
      have put : ∀ {u}, Operand u → Operand ((.identifier "let" :: (v ++ [.identifier "in"])) ++ u) :=
        fun operand => by simpa using Operand.letIn named operand
      simpa using body.prefixed put
  | .quoted _ => ⟨[],rfl,Atom.quoted.expression⟩
  | .rawString => ⟨[],rfl,Atom.rawString.expression⟩
  | .literal => ⟨[],rfl,Atom.literal.expression⟩
  | .variable => ⟨[],rfl,Atom.variable.expression⟩
  | .current => ⟨[],rfl,Atom.current.expression⟩
  | .root => ⟨[],rfl,Atom.root.expression⟩
  | .values => ⟨[],rfl,Atom.star.expression⟩
  | .not inner => by
      obtain ⟨y,rfl,derived⟩ := inner.derived
      exact ⟨y,rfl,@Expression.prefixed [_] _ .not derived⟩
  | .reference inner => by
      obtain ⟨y,rfl,derived⟩ := inner.derived
      exact ⟨y,rfl,@Expression.prefixed [_] _ .reference derived⟩
  | .group inner => by
      obtain ⟨y,rfl,derived⟩ := inner.derived
      exact ⟨y ++ [_],by simp,(Atom.group derived).expression⟩
  | .hash entries => by
      obtain ⟨y,rfl,derived⟩ := entries.derived
      exact ⟨y ++ [_],by simp,(Atom.hash (.members derived)).expression⟩
  | .list _ items => by
      obtain ⟨y,rfl,derived⟩ := items.derived
      exact ⟨y ++ [_],by simp,(Atom.list (.items derived)).expression⟩
  | .bracket piece => by
      obtain ⟨y,rfl,derived⟩ := piece.derived
      exact ⟨y,rfl,(Atom.bracket derived).expression⟩
  | .flatten => ⟨[],rfl,(Atom.bracket .flatten).expression⟩
  | .filter condition => by
      obtain ⟨y,rfl,derived⟩ := condition.derived
      exact ⟨y ++ [_],by simp,(Atom.bracket (.filter derived)).expression⟩

theorem ReadsOperators.derived : ReadsOperators power left ks e rest →
    ∃ y, ks = y ++ rest ∧ ∀ x, Expression x → Expression (x ++ y)
  | .done _ => ⟨[],rfl,fun x left => by simpa using left⟩
  | .more found _ first later => by
      obtain ⟨y,rfl,next⟩ := first.derived
      obtain ⟨z,rfl,others⟩ := later.derived
      rw [Operator.ofKind?_some.mp found]
      refine ⟨.symbol _ :: (y ++ z),by simp; rfl,fun x left => ?_⟩
      have := others _ (next x left)
      rwa [List.append_assoc,List.cons_append] at this

theorem ReadsContinued.derived : ReadsContinued left op ks e rest →
    ∃ y, ks = y ++ rest ∧ ∀ x, Expression x → Expression (x ++ .symbol op.symbol :: y)
  | .pipe right | .or right | .and right | .compare right => by
      obtain ⟨y,rfl,derived⟩ := right.derived
      exact ⟨y,rfl,fun x left => left.joined ((binary_power _).mpr (by simp [Operator.power])) derived⟩
  | .flatten => ⟨[],rfl,fun x left => left.extended (.bracket .flatten)⟩
  | .bracket piece => by
      obtain ⟨y,rfl,derived⟩ := piece.derived
      exact ⟨y,rfl,fun x left => left.extended (.bracket derived)⟩
  | .filter condition => by
      obtain ⟨y,rfl,derived⟩ := condition.derived
      exact ⟨y ++ [_],by simp,fun x left => left.extended (.bracket (.filter derived))⟩
  | .dot selected => by
      obtain ⟨y,rfl,derived⟩ := selected.derived
      exact ⟨y,rfl,fun x left => left.extended derived⟩

theorem ReadsSelected.derived : ReadsSelected ks f rest →
    ∃ y, ks = y ++ rest ∧ Access (.symbol .dot :: y)
  | .field _ => ⟨[_],rfl,.identifier⟩
  | .call arguments => by
      obtain ⟨y,rfl,called⟩ := arguments.derived
      exact ⟨_ :: _ :: y,rfl,.call (called _)⟩
  | .quoted _ => ⟨[_],rfl,.quoted⟩
  | .values => ⟨[_],rfl,.star⟩
  | .list items => by
      obtain ⟨y,rfl,derived⟩ := items.derived
      exact ⟨_ :: (y ++ [_]),by simp,.list (.items derived)⟩
  | .hash entries => by
      obtain ⟨y,rfl,derived⟩ := entries.derived
      exact ⟨_ :: (y ++ [_]),by simp,.hash (.members derived)⟩

theorem ReadsArguments.derived : ReadsArguments ks es rest →
    ∃ y, ks = y ++ rest ∧ ∀ name, Call (.identifier name :: .symbol .leftParen :: y)
  | .none => ⟨[_],rfl,fun _ => .plain⟩
  | .some _ items => by
      obtain ⟨y,rfl,derived⟩ := items.derived
      exact ⟨y ++ [_],by simp,fun _ => .given derived⟩

theorem ReadsItems.derived : ReadsItems closing ks es rest →
    ∃ y, ks = y ++ .symbol closing :: rest ∧ Items y
  | .last item => by
      obtain ⟨y,rfl,derived⟩ := item.derived
      exact ⟨y,rfl,.last derived⟩
  | .more item later => by
      obtain ⟨y,rfl,derived⟩ := item.derived
      obtain ⟨z,rfl,others⟩ := later.derived
      exact ⟨y ++ .symbol .comma :: z,by simp,.more derived others⟩

theorem ReadsEntries.derived : ReadsEntries ks es rest →
    ∃ y, ks = y ++ .symbol .rightBrace :: rest ∧ Members y
  | .last named value => by
      obtain ⟨y,rfl,derived⟩ := value.derived
      exact ⟨_ :: _ :: y,rfl,.last named derived⟩
  | .more named value later => by
      obtain ⟨y,rfl,derived⟩ := value.derived
      obtain ⟨z,rfl,others⟩ := later.derived
      exact ⟨_ :: .symbol .colon :: (y ++ .symbol .comma :: z),by simp,.more named derived others⟩

theorem ReadsBindings.derived : ReadsBindings ks bs rest → ∃ y, ks = y ++ rest ∧ Bindings y
  | .last value _ => by
      obtain ⟨y,rfl,derived⟩ := value.derived
      exact ⟨_ :: _ :: y,rfl,.last derived⟩
  | .more value later => by
      obtain ⟨y,rfl,derived⟩ := value.derived
      obtain ⟨z,rfl,others⟩ := later.derived
      exact ⟨.variable _ :: .symbol .assign :: (y ++ .symbol .comma :: z),by simp; rfl,.more derived others⟩
end

end JsonQuery.Parser
