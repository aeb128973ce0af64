import JsonQuery.Proofs.Token.Demand

namespace JsonQuery

namespace TokenStream

-- Counted from none; behind the last token the ending comes again and again, or the fault.
def nth (s : TokenStream) (k : Nat) : Except LexError Token :=
  match s.tokens[k]? with
  | some t => .ok t
  | none => s.ending

theorem nth_zero (s : TokenStream) : s.nth 0 = s.current := by
  unfold nth current
  cases s.tokens <;> rfl

theorem nth_succ (s : TokenStream) (k : Nat) : s.nth (k + 1) = s.tail.nth k := by
  unfold nth tail
  rw [List.getElem?_tail]

theorem nth_error {s : TokenStream} (failed : s.nth k = .error e) : s.ending = .error e := by
  unfold nth at failed
  split at failed
  · cases failed
  · exact failed

end TokenStream

namespace Lookahead

inductive Ask where
  | next | peek
deriving DecidableEq

def Ask.answer : Ask → Lookahead → Except LexError Token × Lookahead
  | .next, l => l.next
  | .peek, l => l.peek

-- One answer after the other. A fault is the last of them.
def answers : List Ask → Lookahead → List (Except LexError Token)
  | [], _ => []
  | ask :: asks, l =>
    match ask.answer l with
    | (.ok t, after) => .ok t :: answers asks after
    | (.error e, _) => [.error e]

-- Either every call was answered, or the last one met the first fault.
inductive Ended (asks : List Ask) : List (Except LexError Token) → Prop where
  | answered {tokens : List Token} (all : tokens.length = asks.length) : Ended asks (tokens.map .ok)
  | failed {tokens : List Token} (fewer : tokens.length < asks.length) : Ended asks (tokens.map .ok ++ [.error e])

theorem answers_ended (asks : List Ask) (l : Lookahead) : Ended asks (answers asks l) := by
  induction asks generalizing l with
  | nil => exact @Ended.answered [] [] rfl
  | cons ask asks ih =>
      unfold answers
      split
      · rename_i t after _
        have rest := ih after
        generalize answers asks after = others at rest ⊢
        cases rest with
        | @answered tokens all => exact @Ended.answered _ (t :: tokens) (congrArg (· + 1) all)
        | @failed e tokens fewer => exact @Ended.failed _ e (t :: tokens) (Nat.succ_lt_succ fewer)
      · rename_i e _ _
        exact @Ended.failed _ e [] (Nat.succ_pos _)

section
variable {c after : Cursor} {l : Lookahead} {t : Token}

theorem Stands.answer_found (stands : Stands c l) (ask : Ask) : (ask.answer l).1 = c.next.1 := by
  cases ask with
  | next => exact stands.next_found
  | peek => exact stands.peek_found

-- A peek leaves the lexer where it stands, and only a call for the next token goes on.
theorem Stands.answers (stands : Stands c l) (asks : List Ask) {i : Nat} {answer : Except LexError Token}
    (given : (answers asks l)[i]? = some answer) :
    answer = (TokenStream.ofCursor c).nth ((asks.take i).count .next) := by
  induction asks generalizing c l i with
  | nil => cases given
  | cons ask asks ih =>
      have first := stands.answer_found ask
      have now : (TokenStream.ofCursor c).nth 0 = c.next.1 := by
        rw [TokenStream.nth_zero,TokenStream.ofCursor_current]
      unfold Lookahead.answers at given
      split at given
      · rename_i t later read
        rw [read] at first
        cases i with
        | zero =>
            cases given
            exact first.trans now.symm
        | succ i =>
            have call : c.next = (.ok t,c.next.2) := Prod.ext first.symm rfl
            cases ask with
            | next =>
                have stands := stands.next call
                rw [show l.next.2 = later from congrArg Prod.snd read] at stands
                rw [ih stands given,← TokenStream.ofCursor_tail call,← TokenStream.nth_succ,List.take_succ_cons,
                  List.count_cons_self]
            | peek =>
                have stands := stands.peek call
                rw [show l.peek.2 = later from congrArg Prod.snd read] at stands
                exact ih stands given
      · rename_i e _ read
        rw [read] at first
        cases i with
        | zero =>
            cases given
            exact first.trans now.symm
        | succ i => cases given

end

theorem count_peeks {asks : List Ask} {i j : Nat} (later : i ≤ j)
    (peeks : ∀ m, i ≤ m → m < j → asks[m]? = some Ask.peek) :
    (asks.take j).count Ask.next = (asks.take i).count Ask.next := by
  induction j, later using Nat.le_induction with
  | base => rfl
  | succ j later ih =>
      rw [List.take_add_one,peeks j later (Nat.lt_succ_self j),List.count_append,
        ih fun m from_i before => peeks m from_i (Nat.lt_succ_of_lt before)]
      rfl

end Lookahead

theorem TokenStream.nth_tokenized {source : String} {tokens : List Token} (read : tokenize source = .ok tokens) :
    ∃ ending, tokens.getLast? = some ending ∧ ending.kind = .ending ∧
      ∀ k, (ofText source).nth k = .ok (tokens[k]?.getD ending) := by
  obtain ⟨ending,ended,rfl⟩ := tokenize_ok.mp read
  refine ⟨ending,List.getLast?_concat,ofText_ending source ending ended,fun k => ?_⟩
  unfold nth
  split
  · rename_i t here
    rw [List.getElem?_append_left (List.getElem?_eq_some_iff.mp here).1,here]
    rfl
  · rename_i beyond
    rw [ended,List.getElem?_append_right (List.getElem?_eq_none_iff.mp beyond)]
    cases k - (ofText source).tokens.length <;> rfl

theorem TokenStream.nth_refused {source : String} {e : LexError} (failed : tokenize source = .error e) : ∃ tokens last after,
    Lookahead.Run (.start source) tokens last ∧ last.next = (.error e,after) ∧
      ∀ k, (ofText source).nth k = (tokens.map Except.ok)[k]?.getD (.error e) := by
  have ended := tokenize_error.mp failed
  obtain ⟨last,ran,final⟩ := within_run _ (Cursor.start source) (Nat.le_refl _)
  have final : last.next.1 = .error e := final.trans ended
  refine ⟨(ofText source).tokens,⟨last,none⟩,⟨last.next.2,none⟩,ran,by simp only [Lookahead.next,final],fun k => ?_⟩
  unfold nth
  rw [List.getElem?_map,ended]
  cases (ofText source).tokens[k]? <;> rfl

-- However calls for the next token and looks at it follow on each other, each is answered by the
-- token whose turn it is when all are scanned in one go, and the first fault is the same.
theorem Lookahead.answers_transparent (source : String) (asks : List Ask) :
    let s := TokenStream.ofText source
    let given := answers asks (.start source)
    Ended asks given ∧
    (∀ i answer, given[i]? = some answer → answer = s.nth ((asks.take i).count Ask.next)) ∧
    (∀ (i j : Nat) answer answer', i ≤ j → (∀ m, i ≤ m → m < j → asks[m]? = some Ask.peek) →
      given[i]? = some answer → given[j]? = some answer' → answer' = answer) ∧
    (∀ e, .error e ∈ given → tokenize source = .error e) ∧
    (∀ tokens, tokenize source = .ok tokens → ∃ ending, tokens.getLast? = some ending ∧ ending.kind = .ending ∧
      ∀ k, s.nth k = .ok (tokens[k]?.getD ending)) ∧
    ∀ e, tokenize source = .error e → ∃ tokens last after, Run (.start source) tokens last ∧
      last.next = (.error e,after) ∧ ∀ k, s.nth k = (tokens.map Except.ok)[k]?.getD (.error e) := by
  intro s given
  have each (i : Nat) (answer : Except LexError Token) (here : given[i]? = some answer) :
      answer = s.nth ((asks.take i).count .next) := Stands.fresh.answers asks here
  refine ⟨answers_ended asks _,each,?peeks,?fault,fun _ => TokenStream.nth_tokenized,fun _ => TokenStream.nth_refused⟩
  case peeks =>
      intro i j answer answer' later peeks here there
      rw [each i answer here,each j answer' there,count_peeks later peeks]
  case fault =>
      intro e inside
      obtain ⟨i,here⟩ := List.mem_iff_getElem?.mp inside
      exact tokenize_error.mpr (TokenStream.nth_error (each i _ here).symm)

-- A second look meets the same token, and the fault behind it is met by a look too.
theorem Lookahead.answers_transparent_fault :
    let token : Token := ⟨.identifier "a","a",⟨0,1,1⟩⟩
    let e : LexError := ⟨.unterminated .rawString,⟨2,1,3⟩⟩
    answers [.peek,.peek,.next,.peek] (.start "a '") = [.ok token,.ok token,.ok token,.error e] ∧
      tokenize "a '" = .error e ∧ ∃ tokens last after, Run (.start "a '") tokens last ∧
        last.next = (.error e,after) ∧ Except.ok token = (tokens.map Except.ok)[0]?.getD (.error e) := by
  intro token e
  have given : answers [.peek,.peek,.next,.peek] (.start "a '") = [.ok token,.ok token,.ok token,.error e] := by decide
  obtain ⟨_,each,_,fault,_,refused⟩ := answers_transparent "a '" [.peek,.peek,.next,.peek]
  have failed : tokenize "a '" = .error e := fault e (by rw [given]; simp)
  obtain ⟨tokens,last,after,ran,stopped,nth⟩ := refused e failed
  refine ⟨given,failed,tokens,last,after,ran,stopped,?_⟩
  rw [← nth 0]
  exact each 0 _ (by rw [given]; rfl)

end JsonQuery
