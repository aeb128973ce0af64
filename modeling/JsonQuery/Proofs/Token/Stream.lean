import JsonQuery.Token.Stream

namespace JsonQuery

open Number

namespace Reading

@[simp] theorem map_length (r : Reading α) (f : α → β) : (r.map f).length = r.length := rfl

@[simp] theorem fault_length (fault : LexFault) (offset length : Nat) :
    (Reading.fault fault offset length : Reading α).length = length := rfl

theorem map_ok {r : Reading α} {f : α → β} (read : (r.map f).outcome = .ok b) :
    ∃ a, r.outcome = .ok a ∧ f a = b := by
  unfold map at read
  cases found : r.outcome with
  | error misread => simp [found,Except.map] at read
  | ok a => exact ⟨a,rfl,by simpa [found,Except.map] using read⟩

end Reading

theorem readQuoted_length (seen : Nat) (text : List Char) : seen ≤ (readQuoted seen text).length := by
  fun_induction readQuoted seen text <;> simp only [Reading.map_length,Reading.fault_length] <;> omega

theorem readDelimited_length (form : Enclosed) (delimiter : Char) (seen : Nat) (text : List Char) :
    seen ≤ (readDelimited form delimiter seen text).length := by
  fun_induction readDelimited form delimiter seen text <;>
    simp only [Reading.map_length,Reading.fault_length] <;> omega

-- Only the end of the text is the ending, and the text of a literal is a document.
def Proper (kind : TokenKind) : Prop :=
  kind ≠ .ending ∧ ∀ text, kind = .literal text → (Json.read text).isSome

theorem readLiteral_ok (read : (readLiteral text).outcome = .ok kind) :
    Proper kind ∧ 0 < (readLiteral text).length := by
  have taken := readDelimited_length .literal '\x60' 1 text
  cases found : (readDelimited .literal '\x60' 1 text).outcome with
  | error misread => simp [readLiteral,found] at read
  | ok content =>
      by_cases valid : Json.accepts content = true
      · simp only [readLiteral,found,if_pos valid,Except.ok.injEq] at read ⊢
        refine ⟨⟨read ▸ nofun,fun other same => ?_⟩,taken⟩
        cases read.trans same
        rwa [Json.read,String.toList_ofList]
      · simp [readLiteral,found,valid,Reading.fault] at read

theorem readNumeral_ok (read : (readNumeral text).outcome = .ok kind) :
    Proper kind ∧ 0 < (readNumeral text).length := by
  unfold readNumeral at read ⊢
  dsimp only at read ⊢
  split at read
  · cases read
  · rename_i digits
    have whole : 0 < (Numeral.scan text).whole.length := by
      simpa [List.length_pos_iff] using digits
    have taken : 0 < (Numeral.scan text).length := by unfold Numeral.length; omega
    rw [if_neg digits]
    split at read
    · rename_i integral
      rw [if_pos integral]
      split at read
      · rename_i fits
        cases read
        rw [if_pos fits]
        exact ⟨⟨nofun,nofun⟩,taken⟩
      · cases read
    · rename_i fractional
      cases read
      rw [if_neg fractional]
      exact ⟨⟨nofun,nofun⟩,taken⟩

theorem readSymbol_ok (read : (readSymbol c text).outcome = .ok kind) :
    Proper kind ∧ 0 < (readSymbol c text).length := by
  unfold readSymbol at read ⊢
  split at read
  · rename_i s found
    cases read
    refine ⟨⟨nofun,nofun⟩,?_⟩
    cases s <;> decide
  · cases read

theorem readToken_ok (present : text ≠ []) (read : (readToken text).outcome = .ok kind) :
    Proper kind ∧ 0 < (readToken text).length := by
  unfold readToken at read ⊢
  split at read
  · exact absurd rfl present
  · rename_i rest
    obtain ⟨name,_,rfl⟩ := Reading.map_ok read
    exact ⟨⟨nofun,nofun⟩,readQuoted_length 1 rest⟩
  · rename_i rest
    obtain ⟨content,_,rfl⟩ := Reading.map_ok read
    exact ⟨⟨nofun,nofun⟩,readDelimited_length .rawString _ 1 rest⟩
  · exact readLiteral_ok read
  · rename_i c rest _ _ _
    by_cases numeral : (c == '-' || isDigit c) = true
    · rw [if_pos numeral] at read ⊢
      exact readNumeral_ok read
    · rw [if_neg numeral] at read ⊢
      by_cases start : isNameStart c = true
      · rw [if_pos start] at read ⊢
        cases read
        refine ⟨⟨nofun,nofun⟩,?_⟩
        simp [nameAt,start,isNameChar]
      · rw [if_neg start] at read ⊢
        dsimp only at read ⊢
        split at read
        · rename_i named
          cases read
          rw [if_pos named]
          exact ⟨⟨nofun,nofun⟩,Nat.succ_pos _⟩
        · rename_i plain
          rw [if_neg plain]
          exact readSymbol_ok read

theorem Cursor.skipBlanks_rest (c : Cursor) : c.skipBlanks.rest.length ≤ c.rest.length := by
  simp [skipBlanks,advance]

theorem Cursor.next_found (c : Cursor) {kind : TokenKind} {accepts : List Char → Bool}
    (found : (readToken c.skipBlanks.rest accepts).outcome = .ok kind) : c.next accepts =
      (.ok ⟨kind,String.ofList (c.skipBlanks.rest.take (readToken c.skipBlanks.rest accepts).length),
        c.skipBlanks.position⟩,c.skipBlanks.advance (readToken c.skipBlanks.rest accepts).length) := by
  simp only [next,found]

theorem Cursor.next_kind {c : Cursor} (read : c.next.1 = .ok t) :
    (readToken c.skipBlanks.rest).outcome = .ok t.kind := by
  cases found : (readToken c.skipBlanks.rest).outcome with
  | error misread => simp only [next,found,reduceCtorEq] at read
  | ok kind =>
      rw [c.next_found found] at read
      rw [← Except.ok.inj read]

-- A token that is not the ending takes a character at least.
theorem Cursor.next_ok {c : Cursor} (read : c.next = (.ok t,after)) :
    t.kind = .ending ∨ Proper t.kind ∧ after.rest.length < c.rest.length := by
  have found := next_kind (congrArg Prod.fst read)
  have skipped := c.skipBlanks_rest
  rw [c.next_found found] at read
  have moved := (Prod.mk.inj read).2
  cases left : c.skipBlanks.rest with
  | nil =>
      rw [left] at found
      exact .inl (Except.ok.inj found).symm
  | cons first rest =>
      have ⟨proper,taken⟩ := readToken_ok (by simp [left]) found
      refine .inr ⟨proper,?_⟩
      rw [← moved]
      simp only [advance,List.length_drop,left,List.length_cons] at *
      omega

theorem Cursor.next_nil {c : Cursor} (empty : c.rest = []) (read : c.next.1 = .ok t) :
    t.kind = .ending := by
  have found := next_kind read
  have left : c.skipBlanks.rest = [] := by simp [skipBlanks,advance,empty]
  rw [left] at found
  exact (Except.ok.inj found).symm

namespace TokenStream

theorem within_proper (n : Nat) (c : Cursor) (enough : c.rest.length ≤ n) :
    (∀ t ∈ (within n c).tokens, Proper t.kind) ∧
      ∀ t, (within n c).ending = .ok t → t.kind = .ending := by
  induction n generalizing c with
  | zero =>
      refine ⟨fun t inside => absurd inside List.not_mem_nil,fun t ended => ?_⟩
      exact Cursor.next_nil (List.length_eq_zero_iff.mp (Nat.le_zero.mp enough)) ended
  | succ n ih =>
      unfold within
      split
      · refine ⟨fun t inside => absurd inside List.not_mem_nil,fun t ended => ?_⟩
        cases ended
      · rename_i t after read
        split
        · rename_i ending
          exact ⟨fun t inside => absurd inside List.not_mem_nil,fun u same => Except.ok.inj same ▸ ending⟩
        · rename_i other
          obtain ending | ⟨proper,less⟩ := Cursor.next_ok read
          · exact (other ending).elim
          · obtain ⟨tokens,closes⟩ := ih after (by omega)
            exact ⟨List.forall_mem_cons.mpr ⟨proper,tokens⟩,closes⟩

theorem ofText_proper (text : String) : ∀ t ∈ (ofText text).tokens, Proper t.kind :=
  (within_proper _ _ (Nat.le_refl _)).1

theorem ofText_ending (text : String) (t : Token) (ended : (ofText text).ending = .ok t) :
    t.kind = .ending :=
  (within_proper _ _ (Nat.le_refl _)).2 t ended

end TokenStream
end JsonQuery
