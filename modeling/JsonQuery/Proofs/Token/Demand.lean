import JsonQuery.Proofs.Token.Coverage

namespace JsonQuery

namespace Cursor

variable {c after : Cursor} {t : Token}

theorem advance_nil (none : c.rest = []) (count : Nat) : c.advance count = c := by
  cases c with
  | mk rest position =>
      subst none
      simp [advance,Position.passing]

-- The ending takes nothing, so it comes again and again.
theorem next_repeats (read : c.next = (.ok t,after)) (ending : t.kind = .ending) :
    after.next = (.ok t,after) := by
  have found := next_kind (congrArg Prod.fst read)
  have none : c.skipBlanks.rest = [] := by
    by_contra present
    exact (readToken_ok present found).1.1 ending
  have stays : after = c.skipBlanks := by
    rw [c.next_found found,advance_nil none] at read
    exact (Prod.mk.inj read).2.symm
  have same : after.next = c.next := by
    have skipped : after.skipBlanks = c.skipBlanks := by
      rw [stays]
      exact advance_nil none _
    unfold next
    rw [skipped]
  rw [same,read]

end Cursor

namespace TokenStream

theorem within_nil (none : c.rest = []) (n : Nat) : within n c = ⟨[],c.next.1⟩ := by
  cases n with
  | zero => rfl
  | succ n =>
      unfold within
      split
      · rename_i read
        rw [read]
      · rename_i read
        rw [read,Cursor.next_nil none (congrArg Prod.fst read)]

-- More calls than there are characters find nothing more.
theorem within_enough (c : Cursor) (enough : c.rest.length ≤ n) (enough' : c.rest.length ≤ m) :
    within n c = within m c := by
  induction n generalizing c m with
  | zero =>
      have none := List.length_eq_zero_iff.mp (Nat.le_zero.mp enough)
      rw [within_nil none,within_nil none]
  | succ n ih =>
      cases m with
      | zero =>
          have none := List.length_eq_zero_iff.mp (Nat.le_zero.mp enough')
          rw [within_nil none,within_nil none]
      | succ m =>
          unfold within
          split
          · rfl
          · rename_i t after read
            split
            · rfl
            · rename_i real
              rcases Cursor.next_ok read with ending | ⟨_,less⟩
              · exact absurd ending real
              · rw [ih after (by omega) (m := m) (by omega)]

-- The tokens that are still to come.
def ofCursor (c : Cursor) : TokenStream := within c.rest.length c

theorem ofCursor_succ (c : Cursor) : ofCursor c = within (c.rest.length + 1) c :=
  within_enough c (Nat.le_refl _) (Nat.le_succ _)

theorem ofCursor_failed (read : c.next = (.error e,after)) : ofCursor c = ⟨[],.error e⟩ := by
  rw [ofCursor_succ,within,read]

theorem ofCursor_ended (read : c.next = (.ok t,after)) (ending : t.kind = .ending) :
    ofCursor c = ⟨[],.ok t⟩ := by
  rw [ofCursor_succ,within,read]
  simp only [ending]

theorem ofCursor_found (read : c.next = (.ok t,after)) (real : t.kind ≠ .ending) :
    ofCursor c = ⟨t :: (ofCursor after).tokens,(ofCursor after).ending⟩ := by
  rcases Cursor.next_ok read with ending | ⟨_,less⟩
  · exact absurd ending real
  · rw [ofCursor_succ,within_found read real,within_enough after (Nat.le_of_lt less) (Nat.le_refl _)]
    rfl

theorem ofCursor_current (c : Cursor) : (ofCursor c).current = c.next.1 := by
  rcases read : c.next with ⟨outcome,after⟩
  cases outcome with
  | error e => rw [ofCursor_failed read]; rfl
  | ok t =>
      by_cases ending : t.kind = .ending
      · rw [ofCursor_ended read ending]
        rfl
      · rw [ofCursor_found read ending]
        rfl

theorem ofCursor_tail (read : c.next = (.ok t,after)) : (ofCursor c).tail = ofCursor after := by
  by_cases ending : t.kind = .ending
  · rw [ofCursor_ended read ending,ofCursor_ended (Cursor.next_repeats read ending) ending]
    rfl
  · rw [ofCursor_found read ending]
    rfl

end TokenStream
namespace Lookahead

-- A lexer that stands at the cursor, whether or not it has looked at the token there.
inductive Stands (c : Cursor) : Lookahead → Prop where
  | fresh : Stands c ⟨c,none⟩
  | peeked (read : c.next = (.ok t,after)) : Stands c ⟨after,some t⟩

theorem Stands.next_found (stands : Stands c l) : l.next.1 = c.next.1 := by
  cases stands with
  | fresh => rfl
  | peeked first => rw [first]; rfl

theorem Stands.next (stands : Stands c l) (read : c.next = (.ok t,after)) : Stands after l.next.2 := by
  cases stands with
  | fresh =>
      rw [Lookahead.next,read]
      exact .fresh
  | peeked first =>
      cases first.symm.trans read
      exact .fresh

theorem Stands.peek_found (stands : Stands c l) : l.peek.1 = c.next.1 := by
  cases stands with
  | fresh =>
      rcases read : c.next with ⟨outcome,later⟩
      cases outcome <;> simp [Lookahead.peek,Lookahead.next,read]
  | peeked first => rw [first]; rfl

theorem Stands.peek (stands : Stands c l) (read : c.next = (.ok t,after)) : Stands c l.peek.2 := by
  cases stands with
  | fresh =>
      simp only [Lookahead.peek,Lookahead.next,read]
      exact .peeked read
  | peeked first => exact .peeked first

end Lookahead
end JsonQuery
