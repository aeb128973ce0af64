import JsonQuery.Proofs.Acceptance
import JsonQuery.Proofs.Token.Layout

namespace JsonQuery

-- Where an offset is, told from the text alone and not from how it was reached.
structure Position.Points (text : List Char) (p : Position) : Prop where
  inside : p.offset ≤ text.length
  line : p.line = 1 + (text.take p.offset).count '\n'
  column : p.column = 1 + ((text.take p.offset).reverse.takeWhile (· ≠ '\n')).length

namespace Position

theorem passing_append (p : Position) (first second : List Char) :
    p.passing (first ++ second) = (p.passing first).passing second := List.foldl_append

-- The characters that were passed, the last one first.
theorem passing_reverse (passed : List Char) : start.passing passed.reverse =
    ⟨passed.length,1 + passed.count '\n',1 + (passed.takeWhile (· ≠ '\n')).length⟩ := by
  induction passed with
  | nil => rfl
  | cons c passed ih =>
      rw [List.reverse_cons,passing_append,ih]
      by_cases feed : c = '\n'
      · subst feed
        simp [passing,after,Nat.add_assoc]
      · simp [passing,after,feed,Nat.add_assoc]

theorem passing_offset (passed : List Char) : (start.passing passed).offset = passed.length := by
  have places := passing_reverse passed.reverse
  rw [List.reverse_reverse] at places
  rw [places,List.length_reverse]

theorem passing_points (passed rest : List Char) : (start.passing passed).Points (passed ++ rest) := by
  have front : (passed ++ rest).take (start.passing passed).offset = passed := by
    rw [passing_offset,List.take_left]
  have places := passing_reverse passed.reverse
  rw [List.reverse_reverse] at places
  refine ⟨?_,?_,?_⟩
  · rw [passing_offset,List.length_append]
    exact Nat.le_add_right _ _
  · rw [front,places,List.count_reverse]
  · rw [front,places]

end Position

-- A cursor of a text: what was passed lies before it, and its place is the end of that.
structure Cursor.Behind (text passed : List Char) (c : Cursor) : Prop where
  whole : passed ++ c.rest = text
  place : c.position = Position.start.passing passed

namespace Cursor

variable {c after : Cursor} {t : Token} {e : LexError}

theorem start_behind (source : String) : (start source).Behind source.toList [] := ⟨rfl,rfl⟩

theorem Behind.offset (behind : Behind text passed c) : c.position.offset = passed.length := by
  rw [behind.place,Position.passing_offset]

theorem Behind.points (behind : Behind text passed c) {later rest : List Char}
    (split : c.rest = later ++ rest) : (c.position.passing later).Points text := by
  have whole : text = (passed ++ later) ++ rest := by
    rw [← behind.whole,split,List.append_assoc]
  rw [behind.place,← Position.passing_append,whole]
  exact Position.passing_points _ _

theorem advance_rest (c : Cursor) (count : Nat) :
    c.rest = c.rest.take count ++ (c.advance count).rest := (List.take_append_drop count c.rest).symm

theorem skipBlanks_passes (c : Cursor) : ∃ gap, Blank gap ∧ c.rest = gap ++ c.skipBlanks.rest ∧
    c.skipBlanks.position = c.position.passing gap := by
  have front : c.rest.take (c.rest.takeWhile isBlank).length = c.rest.takeWhile isBlank :=
    (List.prefix_iff_eq_take.mp (List.takeWhile_prefix _)).symm
  refine ⟨c.rest.takeWhile isBlank,?_,?_,?_⟩
  · exact fun _ inside => List.mem_takeWhile_imp inside
  · have split := c.advance_rest (c.rest.takeWhile isBlank).length
    rwa [front] at split
  · exact congrArg c.position.passing front

-- A call passes over blanks and then over the text of its token.
theorem next_passes (read : c.next = (.ok t,after)) : ∃ gap, Blank gap ∧
    c.rest = gap ++ (t.text.toList ++ after.rest) ∧ t.position = c.position.passing gap ∧
      after.position = t.position.passing t.text.toList := by
  obtain ⟨gap,blank,split,place⟩ := c.skipBlanks_passes
  have found := next_kind (congrArg Prod.fst read)
  rw [c.next_found found] at read
  obtain ⟨token,moved⟩ := Prod.mk.inj read
  have token := Except.ok.inj token
  refine ⟨gap,blank,?_,?_,?_⟩
  · rw [← token,← moved,String.toList_ofList,← advance_rest]
    exact split
  · rw [← token]
    exact place
  · rw [← token,← moved,String.toList_ofList]
    rfl

-- A fault lies behind the blanks and somewhere in what is left.
theorem next_misread (read : c.next = (.error e,after)) :
    ∃ passed rest, c.rest = passed ++ rest ∧ e.position = c.position.passing passed := by
  obtain ⟨gap,_,split,place⟩ := c.skipBlanks_passes
  cases found : (readToken c.skipBlanks.rest).outcome with
  | ok kind => rw [c.next_found found] at read; cases read
  | error misread =>
      simp only [next,found,Prod.mk.injEq,Except.error.injEq] at read
      refine ⟨gap ++ c.skipBlanks.rest.take misread.offset,(c.skipBlanks.advance misread.offset).rest,?_,?_⟩
      · rw [List.append_assoc,← advance_rest]
        exact split
      · rw [← read.1,Position.passing_append,← place]
        rfl

theorem next_ended (read : c.next = (.ok t,after)) (ending : t.kind = .ending) :
    t.text = "" ∧ after.rest = [] := by
  have found := next_kind (congrArg Prod.fst read)
  have none : c.skipBlanks.rest = [] := by
    by_contra present
    exact (readToken_ok present found).1.1 ending
  rw [c.next_found found,none] at read
  obtain ⟨token,moved⟩ := Prod.mk.inj read
  refine ⟨?_,?_⟩
  · rw [← Except.ok.inj token]
    simp
  · rw [← moved]
    simp [advance,none]

theorem next_visible (read : c.next = (.ok t,after)) (real : t.kind ≠ .ending) : t.text ≠ "" := by
  rcases next_again (congrArg Prod.fst read) with ⟨ending,_⟩ | written
  · exact absurd ending real
  · obtain ⟨first,others,visible,_⟩ := written.visible
    intro empty
    rw [empty] at visible
    cases visible

end Cursor

-- Calls for the next token, one after the other, none of which failed.
inductive Lookahead.Run : Lookahead → List Token → Lookahead → Prop where
  | nil : Run l [] l
  | cons (read : l.next = (.ok t,middle)) (later : Run middle ts after) : Run l (t :: ts) after

-- Tokens that lie along a text from one offset to another, each behind the one before it and
-- with nothing but blanks in between.
inductive Laid (text : List Char) : Nat → List Token → Nat → Prop where
  | nil : Laid text start [] start
  | cons (behind : start ≤ t.position.offset)
      (gap : Blank ((text.drop start).take (t.position.offset - start)))
      (here : t.text.toList <+: text.drop t.position.offset)
      (later : Laid text (t.position.offset + t.text.toList.length) ts finish) :
      Laid text start (t :: ts) finish

-- What is true of each token wherever it lies.
structure Token.Placed (text : List Char) (t : Token) : Prop where
  points : t.position.Points text
  visible : t.kind ≠ .ending → t.text ≠ ""
  ended : t.kind = .ending → t.position.offset = text.length

namespace Lookahead

variable {text passed : List Char} {c after : Cursor} {t : Token}

theorem next_fresh (read : next ⟨c,none⟩ = (outcome,l)) :
    c.next = (outcome,l.cursor) ∧ l = ⟨l.cursor,none⟩ := by
  obtain ⟨first,second⟩ := Prod.mk.inj read
  rw [← second]
  exact ⟨Prod.ext first rfl,rfl⟩

theorem next_covers (behind : c.Behind text passed) (read : c.next = (.ok t,after)) :
    ∃ longer, after.Behind text longer ∧ t.Placed text ∧
      longer.length = t.position.offset + t.text.toList.length ∧ passed.length ≤ t.position.offset ∧
      Blank ((text.drop passed.length).take (t.position.offset - passed.length)) ∧
      t.text.toList <+: text.drop t.position.offset := by
  obtain ⟨gap,blank,split,place,moved⟩ := Cursor.next_passes read
  have start : t.position = Position.start.passing (passed ++ gap) := by
    rw [place,behind.place,Position.passing_append]
  have offset : t.position.offset = (passed ++ gap).length := by rw [start,Position.passing_offset]
  have whole : text = (passed ++ gap) ++ (t.text.toList ++ after.rest) := by
    rw [← behind.whole,split,List.append_assoc]
  refine ⟨(passed ++ gap) ++ t.text.toList,⟨?_,?_⟩,⟨?_,?_,?_⟩,?_,?_,?_,?_⟩
  · rw [whole,List.append_assoc]
  · rw [moved,start,← Position.passing_append]
  · rw [place]
    exact behind.points split
  · exact Cursor.next_visible read
  · intro ending
    obtain ⟨empty,none⟩ := Cursor.next_ended read ending
    rw [whole,offset,empty,none]
    simp
  · rw [offset,List.length_append]
  · rw [offset,List.length_append]
    exact Nat.le_add_right _ _
  · rw [offset,whole,List.append_assoc,List.drop_left,List.length_append,Nat.add_sub_cancel_left,
      List.take_left]
    exact blank
  · rw [offset,whole,List.drop_left]
    exact List.prefix_append _ _

-- The invariant of a run: a cursor behind all that was passed, and tokens that cover it.
theorem run_covers (ran : Run l tokens last) (fresh : l = ⟨l.cursor,none⟩)
    (behind : l.cursor.Behind text passed) :
    ∃ longer, last = ⟨last.cursor,none⟩ ∧ last.cursor.Behind text longer ∧
      Laid text passed.length tokens longer.length ∧ ∀ t ∈ tokens, t.Placed text := by
  induction ran generalizing passed with
  | nil => exact ⟨passed,fresh,behind,.nil,fun _ inside => absurd inside List.not_mem_nil⟩
  | cons read later ih =>
      rw [fresh] at read
      obtain ⟨read,fresh⟩ := next_fresh read
      obtain ⟨middle,next,placed,finish,before,gap,here⟩ := next_covers behind read
      obtain ⟨longer,fresh,ended,laid,each⟩ := ih fresh next
      rw [finish] at laid
      exact ⟨longer,fresh,ended,.cons before gap here laid,List.forall_mem_cons.mpr ⟨placed,each⟩⟩

end Lookahead

namespace TokenStream

-- Reading a text to its end, or to its first fault, is one run.
theorem within_run (n : Nat) (c : Cursor) (enough : c.rest.length ≤ n) :
    ∃ after, Lookahead.Run ⟨c,none⟩ (within n c).tokens ⟨after,none⟩ ∧
      after.next.1 = (within n c).ending := by
  induction n generalizing c with
  | zero => exact ⟨c,.nil,rfl⟩
  | succ n ih =>
      unfold within
      split
      · rename_i e after read
        exact ⟨c,.nil,by rw [read]⟩
      · rename_i t after read
        split
        · exact ⟨c,.nil,by rw [read]⟩
        · rename_i real
          rcases Cursor.next_ok read with ending | ⟨_,less⟩
          · exact absurd ending real
          · obtain ⟨last,ran,ended⟩ := ih after (by omega)
            exact ⟨last,.cons (by simp only [Lookahead.next,read]) ran,ended⟩

end TokenStream

theorem Lookahead.Run.append (first : Run l ts middle) (second : Run middle ts' after) :
    Run l (ts ++ ts') after := by
  induction first with
  | nil => exact second
  | cons read _ ih => exact .cons read (ih second)

theorem tokenize_run (read : tokenize source = .ok tokens) :
    ∃ l, Lookahead.Run (.start source) tokens l ∧ l.cursor.rest = [] := by
  obtain ⟨ending,ended,rfl⟩ := tokenize_ok.mp read
  obtain ⟨last,ran,final⟩ := TokenStream.within_run _ (Cursor.start source) (Nat.le_refl _)
  have final : last.next.1 = .ok ending := final.trans ended
  have kind := TokenStream.ofText_ending source ending ended
  have call : last.next = (.ok ending,last.next.2) := by rw [← final]
  have closing : Lookahead.next ⟨last,none⟩ = (.ok ending,⟨last.next.2,none⟩) := by
    simp only [Lookahead.next,final]
  exact ⟨⟨last.next.2,none⟩,ran.append (.cons closing .nil),(Cursor.next_ended call kind).2⟩

theorem tokenize_failed (read : tokenize source = .error e) :
    ∃ tokens l after, Lookahead.Run (.start source) tokens l ∧ l.next = (.error e,after) := by
  obtain ⟨last,ran,final⟩ := TokenStream.within_run _ (Cursor.start source) (Nat.le_refl _)
  have final : last.next.1 = .error e := final.trans (tokenize_error.mp read)
  exact ⟨_,_,⟨last.next.2,none⟩,ran,by simp only [Lookahead.next,final]⟩

-- The blanks that were passed over and the texts of the tokens, put together again.
theorem Laid.rebuilds (laid : Laid text start tokens finish) :
    ∃ gaps : List (List Char), gaps.length = tokens.length ∧ (∀ gap ∈ gaps, Blank gap) ∧
      text.drop start = (List.zipWith (fun gap t => gap ++ t.text.toList) gaps tokens).flatten ++
        text.drop finish := by
  induction laid with
  | nil => exact ⟨[],rfl,fun _ inside => absurd inside List.not_mem_nil,rfl⟩
  | cons behind gap here _ ih =>
      rename_i start ts finish t _
      obtain ⟨gaps,count,blank,rest⟩ := ih
      obtain ⟨others,after⟩ := here
      have left : text.drop (t.position.offset + t.text.toList.length) = others := by
        rw [← List.drop_drop,← after,List.drop_left]
      have front : text.drop start =
          (text.drop start).take (t.position.offset - start) ++ text.drop t.position.offset := by
        have split := (List.take_append_drop (t.position.offset - start) (text.drop start)).symm
        rwa [List.drop_drop,Nat.add_sub_cancel' behind] at split
      refine ⟨_ :: gaps,congrArg (· + 1) count,List.forall_mem_cons.mpr ⟨gap,blank⟩,?_⟩
      calc text.drop start
          = (text.drop start).take (t.position.offset - start) ++ (t.text.toList ++ others) := by
            rw [after]
            exact front
        _ = _ := by
            rw [← left,rest,List.zipWith_cons_cons,List.flatten_cons]
            simp only [List.append_assoc]

-- Nothing of a text is lost or counted twice, and every place is that of its characters. A run
-- stops anywhere before the first fault, and goes on with the ending once there is no more.
theorem tokenize_lossless (source : String) :
    (∀ tokens last, Lookahead.Run (.start source) tokens last →
      Laid source.toList 0 tokens last.cursor.position.offset ∧
      (∀ t ∈ tokens, t.Placed source.toList) ∧
      ∀ e after, last.next = (.error e,after) → e.position.Points source.toList) ∧
    (∀ tokens, tokenize source = .ok tokens → ∃ last, Lookahead.Run (.start source) tokens last ∧
      ∃ gaps : List (List Char), gaps.length = tokens.length ∧ (∀ gap ∈ gaps, Blank gap) ∧
        source.toList = (List.zipWith (fun gap t => gap ++ t.text.toList) gaps tokens).flatten) ∧
    ∀ e, tokenize source = .error e → ∃ tokens last after,
      Lookahead.Run (.start source) tokens last ∧ last.next = (.error e,after) := by
  have covers : ∀ {tokens last}, Lookahead.Run (.start source) tokens last → ∃ passed,
      last = ⟨last.cursor,none⟩ ∧ last.cursor.Behind source.toList passed ∧
        Laid source.toList 0 tokens passed.length ∧ ∀ t ∈ tokens, t.Placed source.toList :=
    fun ran => Lookahead.run_covers ran rfl (Cursor.start_behind source)
  refine ⟨?_,?_,fun e => tokenize_failed⟩
  · intro tokens last ran
    obtain ⟨passed,fresh,behind,laid,each⟩ := covers ran
    refine ⟨behind.offset ▸ laid,each,?_⟩
    intro e after read
    rw [fresh] at read
    obtain ⟨later,rest,split,place⟩ := Cursor.next_misread (Lookahead.next_fresh read).1
    rw [place]
    exact behind.points split
  · intro tokens read
    obtain ⟨last,ran,ended⟩ := tokenize_run read
    obtain ⟨passed,_,behind,laid,_⟩ := covers ran
    obtain ⟨gaps,count,blank,whole⟩ := laid.rebuilds
    have all : passed = source.toList := by
      have split := behind.whole
      rwa [ended,List.append_nil] at split
    refine ⟨last,ran,gaps,count,blank,?_⟩
    rwa [all,List.drop_length,List.append_nil,List.drop_zero] at whole

-- The fault of the second line stands at its backslash.
theorem tokenize_lossless_escape :
    let source := "a \n \"b\\x\""
    let token : Token := ⟨.identifier "a","a",⟨0,1,1⟩⟩
    let e : LexError := ⟨.badEscape 'x',⟨6,2,4⟩⟩
    ∃ last after, Lookahead.Run (.start source) [token] last ∧ last.next = (.error e,after) ∧
      tokenize source = .error e ∧ Laid source.toList 0 [token] last.cursor.position.offset ∧
      token.Placed source.toList ∧ e.position.Points source.toList := by
  intro source token e
  have first : (Lookahead.start source).next.1 = .ok token := by decide
  have second : (Lookahead.start source).next.2.next.1 = .error e := by decide
  have failed : tokenize source = .error e := by decide
  have ran : Lookahead.Run (.start source) [token] (Lookahead.start source).next.2 :=
    .cons (Prod.ext first rfl) .nil
  have read : (Lookahead.start source).next.2.next = (.error e,_) := Prod.ext second rfl
  obtain ⟨laid,each,faults⟩ := (tokenize_lossless source).1 _ _ ran
  exact ⟨_,_,ran,read,failed,laid,each token List.mem_cons_self,faults e _ read⟩

end JsonQuery
