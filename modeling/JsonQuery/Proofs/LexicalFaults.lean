import JsonQuery.Proofs.Expr.Located
import JsonQuery.Proofs.Token.Demand

namespace JsonQuery

open JsonQuery.Parser

-- What can be said against a stream: its own fault, or something about one of its tokens.
inductive TokenStream.Told (s : TokenStream) : ParseError → Prop where
  | lex (ended : s.ending = .error e) : Told s (.lex e)
  | unexpected (present : t ∈ s.all) : Told s (.unexpected t.kind expected t.position)
  | invalid (present : t ∈ s.all) : Told s (.invalid fault t.position)

namespace Parser

-- One stream seen twice, the end of a stream that was given.
def Ends (given s s' : TokenStream) : Prop :=
  s = s' ∧ s.tokens <:+ given.tokens ∧ s.ending = given.ending

theorem Ends.all {given s s' : TokenStream} (ends : Ends given s s') (inside : t ∈ s.all) : t ∈ given.all := by
  unfold TokenStream.all at inside ⊢
  rw [← ends.2.2]
  exact (List.mem_append.mp inside).elim (fun token => List.mem_append_left _ (ends.2.1.subset token))
    (List.mem_append_right _)

theorem here_failed_ending (failed : here ⟨ts,close⟩ = .error e) :
    ∃ fault, close = .error fault ∧ e = .lex fault := by
  cases ts with
  | cons t later => cases failed
  | nil =>
      cases close with
      | ok t => cases failed
      | error fault => exact ⟨fault,rfl,(Except.error.inj failed).symm⟩

theorem told_view (given : TokenStream) : View (fun t t' => t = t' ∧ t ∈ given.all)
    (fun e e' => e = e' ∧ given.Told e) (Ends given) where
  here := by
    intro s s' ends
    obtain ⟨same,ends⟩ := ends
    subst same
    obtain ⟨ts,close⟩ := s
    cases seen : here ⟨ts,close⟩ with
    | ok t =>
        obtain ⟨after,split⟩ := here_all seen
        have inside : t ∈ (TokenStream.mk ts close).all := split ▸ List.mem_cons_self
        exact .ok ⟨rfl,Ends.all ⟨rfl,ends⟩ inside⟩
    | error e =>
        obtain ⟨fault,closed,rfl⟩ := here_failed_ending seen
        exact .error ⟨rfl,.lex (ends.2.symm.trans closed)⟩
  tail := by
    intro s s' ends
    obtain ⟨same,suffix,closed⟩ := ends
    exact ⟨congrArg TokenStream.tail same,(List.tail_suffix _).trans suffix,closed⟩
  size := by
    intro s s' ends
    exact congrArg (·.tokens.length) ends.1
  kind both := congrArg Token.kind both.1
  refused both _ := ⟨both.1 ▸ rfl,.unexpected both.2⟩
  misplaced both _ := ⟨both.1 ▸ rfl,.invalid both.2⟩

-- No parser makes up a fault: it is the first one of the text, or it is said against a token.
theorem stream_told (raised : stream s = .error e) : s.Told e := by
  have alike := stream_uniform (told_view s) (s := s) ⟨rfl,List.suffix_rfl,rfl⟩
  rw [raised] at alike
  cases alike with
  | error faults => exact faults.2

-- What a parser asks for: the token it holds, to be replaced by the next one, or a look at
-- the next one.
inductive Demand where
  | take | look

-- From a lexer that scans only when it has to, and the token that is held.
def Demand.scanned : Demand → Lookahead × Token → Except ParseError (Token × Lookahead × Token)
  | .take,(l,t) => (l.next.1.mapError .lex).map fun u => (t,l.next.2,u)
  | .look,(l,t) => (l.peek.1.mapError .lex).map fun u => (u,l.peek.2,t)

-- From the tokens of the whole text.
def Demand.streamed : Demand → TokenStream → Except ParseError (Parsed Token)
  | .take,s => advance s
  | .look,s => (here s.tail).map fun u => (u,s)

def answers (answer : Demand → σ → Except ParseError (Token × σ)) :
    List Demand → σ → Except ParseError (List Token)
  | [],_ => .ok []
  | demand :: demands,s => do
    let (t,s) ← answer demand s
    let ts ← answers answer demands s
    return t :: ts

-- A parser begins by taking hold of the first token.
def lazily (source : String) (demands : List Demand) : Except ParseError (List Token) := do
  let t ← (Lookahead.start source).next.1.mapError .lex
  answers Demand.scanned demands ((Lookahead.start source).next.2,t)

def eagerly (source : String) (demands : List Demand) : Except ParseError (List Token) := do
  let _ ← here (.ofText source)
  answers Demand.streamed demands (.ofText source)

-- The lexer stands behind the token that is held, and the stream is what it will still give.
structure Held (l : Lookahead) (t : Token) (s : TokenStream) : Prop where
  current : s.current = .ok t
  behind : ∃ c, Lookahead.Stands c l ∧ s.tail = .ofCursor c

-- Both ways fail alike, or both give the token and go on alike.
inductive Demand.Agrees : Except ParseError (Token × Lookahead × Token) →
    Except ParseError (Parsed Token) → Prop where
  | error : Agrees (.error e) (.error e)
  | ok (held : Held l t s) : Agrees (.ok (u,l,t)) (.ok (u,s))

section
variable {l : Lookahead} {t : Token} {s : TokenStream}

theorem Held.started (read : (Lookahead.start source).next.1 = .ok t) :
    Held (Lookahead.start source).next.2 t (.ofText source) := by
  have call : (Cursor.start source).next = (.ok t,(Cursor.start source).next.2) := Prod.ext read rfl
  exact ⟨(TokenStream.ofCursor_current _).trans read,_,.fresh,TokenStream.ofCursor_tail call⟩

theorem Held.taken (held : Held l t s) :
    Demand.Agrees (Demand.scanned .take (l,t)) (Demand.streamed .take s) := by
  obtain ⟨current,c,stands,tail⟩ := held
  have later : s.tail.current = c.next.1 := by rw [tail,TokenStream.ofCursor_current]
  unfold Demand.scanned Demand.streamed advance here
  dsimp only
  rw [current,later,stands.next_found]
  rcases read : c.next with ⟨outcome,after⟩
  cases outcome with
  | error e => exact .error
  | ok u =>
      have current : s.tail.current = .ok u := by rw [later,read]
      exact .ok ⟨current,after,stands.next read,by rw [tail,TokenStream.ofCursor_tail read]⟩

theorem Held.looked (held : Held l t s) :
    Demand.Agrees (Demand.scanned .look (l,t)) (Demand.streamed .look s) := by
  obtain ⟨current,c,stands,tail⟩ := held
  have later : s.tail.current = c.next.1 := by rw [tail,TokenStream.ofCursor_current]
  unfold Demand.scanned Demand.streamed here
  dsimp only
  rw [later,stands.peek_found]
  rcases read : c.next with ⟨outcome,after⟩
  cases outcome with
  | error e => exact .error
  | ok u => exact .ok ⟨current,c,stands.peek read,tail⟩

theorem Held.agrees (held : Held l t s) (demand : Demand) :
    Demand.Agrees (demand.scanned (l,t)) (demand.streamed s) := by
  cases demand with
  | take => exact held.taken
  | look => exact held.looked

theorem Held.answers (held : Held l t s) (demands : List Demand) :
    answers Demand.scanned demands (l,t) = answers Demand.streamed demands s := by
  induction demands generalizing l t s with
  | nil => rfl
  | cons demand demands ih =>
      unfold Parser.answers
      have step := held.agrees demand
      generalize demand.scanned (l,t) = scanned at step ⊢
      generalize demand.streamed s = streamed at step ⊢
      cases step with
      | error => rfl
      | @ok l t s u held => exact congrArg (· >>= fun ts => pure (u :: ts)) (ih held)

end

-- No token is skipped, scanned twice or put in another place.
theorem lazily_eagerly (source : String) (demands : List Demand) :
    lazily source demands = eagerly source demands := by
  have first : (TokenStream.ofText source).current = (Lookahead.start source).next.1 :=
    TokenStream.ofCursor_current _
  unfold lazily eagerly here
  rw [first]
  cases read : (Lookahead.start source).next.1 with
  | error e => rfl
  | ok t => exact (Held.started read).answers demands

end Parser

theorem Laid.bounded (laid : Laid text start tokens finish) :
    start ≤ finish ∧ ∀ t ∈ tokens, t.position.offset + t.text.toList.length ≤ finish := by
  induction laid with
  | nil => exact ⟨Nat.le_refl _,fun _ inside => absurd inside List.not_mem_nil⟩
  | cons behind _ _ _ ih =>
      obtain ⟨end_le,each⟩ := ih
      exact ⟨by omega,List.forall_mem_cons.mpr ⟨end_le,each⟩⟩

-- Every token in front of the first fault of a text begins before it.
theorem TokenStream.ofText_before (failed : (ofText source).ending = .error e) :
    ∀ t ∈ (ofText source).tokens, t.position.offset < e.position.offset := by
  obtain ⟨last,ran,final⟩ := within_run _ (Cursor.start source) (Nat.le_refl _)
  obtain ⟨passed,_,behind,laid,each⟩ := Lookahead.run_covers ran rfl (Cursor.start_behind source)
  have read : last.next = (.error e,last.next.2) := Prod.ext (final.trans failed) rfl
  obtain ⟨later,_,_,place⟩ := Cursor.next_misread read
  have place : e.position.offset = (passed ++ later).length := by
    rw [place,behind.place,← Position.passing_append,Position.passing_offset]
  intro t inside
  have taken : t.text ≠ "" := (each t inside).visible (ofText_proper source t inside).1
  have visible : 0 < t.text.toList.length := by
    apply List.length_pos_iff.mpr
    intro empty
    exact taken (String.toList_eq_nil_iff.mp empty)
  have bound := laid.bounded.2 t inside
  rw [place,List.length_append]
  omega

-- What the parser asks for is scanned on demand as it stands among all tokens, and the parser
-- meets the fault that all tokens together would have, unless it stops before.
theorem Query.compile_lexical (source : String) :
    (∀ demands, lazily source demands = eagerly source demands) ∧
    (∀ tokens, tokenize source = .ok tokens → ∀ e, Query.compile source ≠ .error (.lex e)) ∧
    ∀ e, tokenize source = .error e → ∃ fault, Query.compile source = .error fault ∧
      (fault = .lex e ∨ (∀ e', fault ≠ .lex e') ∧ fault.position.offset < e.position.offset) := by
  refine ⟨lazily_eagerly source,?_,?_⟩
  · intro tokens read e failed
    obtain ⟨ending,ended,_⟩ := tokenize_ok.mp read
    cases stream_told (Query.compile_error.mp failed) with
    | lex closed => cases ended.symm.trans closed
  · intro e failed
    have ended := tokenize_error.mp failed
    have earlier := TokenStream.ofText_before ended
    have tokens : (TokenStream.ofText source).all = (TokenStream.ofText source).tokens := by
      unfold TokenStream.all
      rw [ended,List.append_nil]
    cases parsed : Expr.parse source with
    | ok tree =>
        obtain ⟨ending,closed,_⟩ := Expr.parse_reads.mp parsed
        cases ended.symm.trans closed
    | error fault =>
        refine ⟨fault,Query.compile_error.mpr parsed,?_⟩
        have told := stream_told parsed
        cases told with
        | lex closed => exact .inl (by cases ended.symm.trans closed; rfl)
        | unexpected present => exact .inr ⟨nofun,earlier _ (tokens ▸ present)⟩
        | invalid present => exact .inr ⟨nofun,earlier _ (tokens ▸ present)⟩

-- The second word stops the parser before it meets a mark that nothing closes.
theorem Query.compile_lexical_earlier :
    let e : LexError := ⟨.unterminated .rawString,⟨4,1,5⟩⟩
    (∃ tokens, tokenize "a b" = .ok tokens ∧ ∀ e', Query.compile "a b" ≠ .error (.lex e')) ∧
    tokenize "a b '" = .error e ∧ ∃ fault, Query.compile "a b '" = .error fault ∧
      (fault = .lex e ∨ (∀ e', fault ≠ .lex e') ∧ fault.position.offset < e.position.offset) := by
  intro e
  have read : tokenize "a b" = .ok
      [⟨.identifier "a","a",⟨0,1,1⟩⟩,⟨.identifier "b","b",⟨2,1,3⟩⟩,⟨.ending,"",⟨3,1,4⟩⟩] := by decide
  have failed : tokenize "a b '" = .error e := by decide
  exact ⟨⟨_,read,(Query.compile_lexical "a b").2.1 _ read⟩,failed,(Query.compile_lexical "a b '").2.2 e failed⟩

end JsonQuery
