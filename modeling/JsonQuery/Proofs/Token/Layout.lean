import JsonQuery.Proofs.Token.Written

namespace JsonQuery

def Blank (gap : List Char) : Prop := ∀ c ∈ gap, isBlank c = true

-- Words in their order: a blank at least between two of them, and any blanks behind the last.
inductive Spaced : List String → List Char → Prop where
  | ended (behind : Blank gap) : Spaced [] gap
  | last (behind : Blank gap) : Spaced [word] (word.toList ++ gap)
  | more (between : Blank gap) (present : gap ≠ []) (others : Spaced (next :: words) text) :
      Spaced (word :: next :: words) (word.toList ++ (gap ++ text))

theorem spaced_joined : (words : List String) → Spaced words (" ".intercalate words).toList
  | [] => .ended nofun
  | [word] => by simpa using @Spaced.last _ word (show Blank [] from nofun)
  | word :: next :: words => by
      rw [String.intercalate_cons_cons]
      simp only [String.toList_append,List.append_assoc]
      exact .more (by simp [Blank,isBlank]) (by simp) (spaced_joined (next :: words))

theorem Blank.dropWhile_append (gap : Blank lead) (text : List Char) :
    (lead ++ text).dropWhile isBlank = text.dropWhile isBlank :=
  List.dropWhile_append_of_pos gap

theorem Blank.apart (gap : Blank lead) : Apart lead := by
  rintro c later rfl
  exact gap c List.mem_cons_self

theorem Blank.apart_append (gap : Blank lead) (present : lead ≠ []) (text : List Char) :
    Apart (lead ++ text) := by
  obtain ⟨c,later,rfl⟩ := List.exists_cons_of_ne_nil present
  exact .blank (gap c List.mem_cons_self)

theorem Cursor.skipBlanks_eq (c : Cursor) : c.skipBlanks.rest = c.rest.dropWhile isBlank :=
  Number.drop_takeWhile isBlank c.rest

-- What is written somewhere is the next token there, once the blanks are passed over.
theorem Cursor.next_written {c : Cursor} {word : String} (written : Written word.toList kind)
    {later : List Char} (gap : Blank lead) (apart : Apart later)
    (here : c.rest = lead ++ (word.toList ++ later)) :
    ∃ position, c.next =
      (.ok ⟨kind,word,position⟩,c.skipBlanks.advance word.toList.length) ∧
      (c.skipBlanks.advance word.toList.length).rest = later := by
  obtain ⟨first,others,whole,visible⟩ := written.visible
  have start : c.skipBlanks.rest = word.toList ++ later := by
    rw [skipBlanks_eq,here,gap.dropWhile_append,whole,List.cons_append,List.dropWhile_cons,visible]
    rfl
  have read := written later apart
  rw [← start] at read
  refine ⟨c.skipBlanks.position,?_,?_⟩
  · rw [c.next_found (congrArg Reading.outcome read),congrArg Reading.length read,start]
    simp
  · simp [advance,start]

theorem Cursor.next_blank {c : Cursor} (gap : Blank c.rest) (accepts : List Char → Bool := Json.accepts) :
    ∃ position after, c.next accepts = (.ok ⟨.ending,"",position⟩,after) := by
  have ended : c.skipBlanks.rest = [] := by
    rw [skipBlanks_eq]
    exact List.dropWhile_eq_nil_iff.mpr gap
  have read : (readToken c.skipBlanks.rest accepts).outcome = .ok .ending := by rw [ended]; rfl
  have found := c.next_found read
  simp only [ended,List.take_nil] at found
  exact ⟨_,_,found⟩

theorem Written.real (written : Written text kind) : kind ≠ .ending := by
  obtain ⟨c,rest,rfl,_⟩ := written.visible
  have read := written [] .nil
  rw [List.append_nil] at read
  exact (readToken_ok (by simp) (congrArg Reading.outcome read)).1.1

-- The text of a token is what the token was read from, and of the ending it is empty.
theorem Cursor.next_again {c : Cursor} (read : c.next.1 = .ok t) :
    t.kind = .ending ∧ t.text = "" ∨ Written t.text.toList t.kind := by
  have kind := next_kind read
  rw [c.next_found kind] at read
  have token := Except.ok.inj read
  cases left : c.skipBlanks.rest with
  | nil =>
      rw [left] at kind token
      rw [← token]
      exact .inl ⟨(Except.ok.inj kind).symm,by simp⟩
  | cons first rest =>
      obtain ⟨used,taken,length,written⟩ := readToken_again (by simp [left]) kind
      have same := List.prefix_iff_eq_take.mp taken
      rw [length,← same] at token
      rw [← token,String.toList_ofList]
      rw [← token] at written
      exact .inr written

-- A token without the place it was found at.
def Token.spelled (t : Token) : TokenKind × String := (t.kind,t.text)

namespace TokenStream

theorem within_ended {c : Cursor} (gap : Blank c.rest) (n : Nat) (accepts : List Char → Bool := Json.accepts) :
    (within n c accepts).tokens = [] ∧
      ∃ position, (within n c accepts).ending = .ok ⟨.ending,"",position⟩ := by
  obtain ⟨position,after,found⟩ := Cursor.next_blank gap accepts
  cases n with
  | zero => exact ⟨rfl,position,by rw [within,found]⟩
  | succ n => rw [within,found]; exact ⟨rfl,position,rfl⟩

theorem within_found {c : Cursor} {accepts : List Char → Bool} (found : c.next accepts = (.ok t,after))
    (real : t.kind ≠ .ending) (n : Nat) : within (n + 1) c accepts =
      ⟨t :: (within n after accepts).tokens,(within n after accepts).ending⟩ := by
  rw [within,found]
  dsimp only
  split
  · rename_i ending
    exact absurd ending real
  · rfl

theorem within_again (n : Nat) (c : Cursor) (enough : c.rest.length ≤ n) :
    (∀ t ∈ (within n c).tokens, Written t.text.toList t.kind) ∧
      ∀ t, (within n c).ending = .ok t → t.text = "" := by
  have ending_text : ∀ {c : Cursor} {t}, c.next.1 = .ok t → t.kind = .ending → t.text = "" := by
    intro c t read ending
    rcases Cursor.next_again read with ⟨_,empty⟩ | written
    · exact empty
    · exact absurd ending (written.real)
  induction n generalizing c with
  | zero =>
      have empty := List.length_eq_zero_iff.mp (Nat.le_zero.mp enough)
      exact ⟨fun t inside => absurd inside List.not_mem_nil,fun t read => ending_text read (Cursor.next_nil empty read)⟩
  | succ n ih =>
      unfold within
      split
      · exact ⟨fun t inside => absurd inside List.not_mem_nil,fun t ended => by cases ended⟩
      · rename_i t after found
        have read := congrArg Prod.fst found
        split
        · rename_i ending
          exact ⟨fun u inside => absurd inside List.not_mem_nil,
            fun u same => Except.ok.inj same ▸ ending_text read ending⟩
        · rename_i real
          rcases Cursor.next_again read with ⟨ending,_⟩ | written
          · exact absurd ending real
          · rcases Cursor.next_ok found with ending | ⟨_,less⟩
            · exact absurd ending real
            · obtain ⟨tokens,closes⟩ := ih after (by omega)
              exact ⟨List.forall_mem_cons.mpr ⟨written,tokens⟩,closes⟩

-- Words that are each written somewhere come back in their order wherever they stand apart.
theorem within_spaced {words : List (TokenKind × String)}
    (written : ∀ word ∈ words, Written word.2.toList word.1)
    (spaced : Spaced (words.map (·.2)) text) (gap : Blank lead) {c : Cursor}
    (here : c.rest = lead ++ text) (enough : c.rest.length ≤ n) :
    (within n c).tokens.map Token.spelled = words ∧
      ∃ position, (within n c).ending = .ok ⟨.ending,"",position⟩ := by
  induction words generalizing n c lead text with
  | nil =>
      cases spaced with
      | ended behind =>
          have all : Blank c.rest := by
            rw [here]
            exact fun c inside => (List.mem_append.mp inside).elim (gap c) (behind c)
          obtain ⟨none,ended⟩ := within_ended all n
          exact ⟨by rw [none]; rfl,ended⟩
  | cons word words ih =>
      obtain ⟨first,others⟩ := List.forall_mem_cons.mp written
      have step : ∀ {lead' text'}, Apart (lead' ++ text') → Blank lead' →
          text = word.2.toList ++ (lead' ++ text') → Spaced (words.map (·.2)) text' →
          (within n c).tokens.map Token.spelled = word :: words ∧
            ∃ position, (within n c).ending = .ok ⟨.ending,"",position⟩ := by
        rintro lead' text' apart behind rfl later
        obtain ⟨position,found,left⟩ := Cursor.next_written first gap apart here
        have visible : word.2.toList ≠ [] := by
          obtain ⟨c,rest,whole,_⟩ := first.visible
          simp [whole]
        have less := List.length_pos_iff.mpr visible
        rw [here,List.length_append,List.length_append] at enough
        obtain ⟨n,rfl⟩ : ∃ m, n = m + 1 := ⟨n - 1,by omega⟩
        obtain ⟨tokens,ended⟩ := ih (n := n) others later behind left (by rw [left]; omega)
        rw [within_found found first.real]
        exact ⟨by rw [List.map_cons,tokens]; rfl,ended⟩
      rw [List.map_cons] at spaced
      generalize same : words.map (·.2) = rest at spaced
      cases spaced with
      | last behind =>
          rename_i gap
          have apart : Apart (gap ++ []) := by rw [List.append_nil]; exact behind.apart
          exact step apart behind (by simp) (same ▸ .ended nofun)
      | more between present later =>
          exact step (between.apart_append present _) between rfl (same ▸ later)

theorem ofText_again (source : String) :
    (∀ t ∈ (ofText source).tokens, Written t.text.toList t.kind) ∧
      ∀ t, (ofText source).ending = .ok t → t.text = "" :=
  within_again _ _ (Nat.le_refl _)

theorem ofText_spaced {words : List (TokenKind × String)}
    (written : ∀ word ∈ words, Written word.2.toList word.1)
    (spaced : Spaced (words.map (·.2)) text) (gap : Blank lead) :
    (ofText (String.ofList (lead ++ text))).tokens.map Token.spelled = words ∧
      ∃ position, (ofText (String.ofList (lead ++ text))).ending = .ok ⟨.ending,"",position⟩ :=
  within_spaced written spaced gap (by simp [Cursor.start]) (Nat.le_refl _)

-- A blank between each two is enough for any words to be the text of their kinds.
theorem ofText_joined {words : List (TokenKind × String)}
    (written : ∀ word ∈ words, Written word.2.toList word.1) :
    (ofText (" ".intercalate (words.map (·.2)))).tokens.map (·.kind) = words.map (·.1) ∧
      ∃ position, (ofText (" ".intercalate (words.map (·.2)))).ending = .ok ⟨.ending,"",position⟩ := by
  obtain ⟨tokens,ended⟩ := ofText_spaced written (spaced_joined (words.map (·.2)))
    (show Blank [] from nofun)
  rw [List.nil_append,String.ofList_toList] at tokens ended
  refine ⟨?_,ended⟩
  have kinds := congrArg (List.map Prod.fst) tokens
  rwa [List.map_map] at kinds

end TokenStream
end JsonQuery
