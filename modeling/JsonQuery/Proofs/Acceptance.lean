import JsonQuery.Query
import JsonQuery.Proofs.Expr.GrammarComplete
import JsonQuery.Proofs.Expr.GrammarSound
import JsonQuery.Proofs.Expr.ParserComplete
import JsonQuery.Proofs.Token.Stream

namespace JsonQuery

open JsonQuery.Parser

theorem tokenize_ok {source : String} {tokens : List Token} : tokenize source = .ok tokens ↔
    ∃ ending, (TokenStream.ofText source).ending = .ok ending ∧
      (TokenStream.ofText source).tokens ++ [ending] = tokens := by
  unfold tokenize
  dsimp only
  cases (TokenStream.ofText source).ending with
  | error fault => simp [Except.map]
  | ok ending => simp [Except.map]

theorem tokenize_error {source : String} {e : LexError} :
    tokenize source = .error e ↔ (TokenStream.ofText source).ending = .error e := by
  unfold tokenize
  dsimp only
  cases (TokenStream.ofText source).ending <;> simp [Except.map]

namespace Parser

-- Nothing but the ending stands behind an expression that is the whole text.
theorem stream_sound (real : ∀ t ∈ ts, t.kind ≠ .ending) (closes : Closes close)
    (parsed : stream ⟨ts,close⟩ = .ok e) :
    ∃ ending, close = .ok ending ∧ Reads 0 (kinds ts) e [] := by
  obtain ⟨⟨e,s⟩,read,rest⟩ := bind_ok.mp parsed
  obtain ⟨later,rfl,reads⟩ := expression_sound closes _ _ _ _ _ read
  obtain ⟨t,found,rest⟩ := bind_ok.mp rest
  split at rest
  · rename_i ending
    cases Except.ok.inj rest
    cases later with
    | nil =>
        cases close with
        | error fault => cases found
        | ok last => exact ⟨last,rfl,reads⟩
    | cons u others =>
        cases Except.ok.inj found
        obtain ⟨y,split,_⟩ := reads.derived
        have inside : t.kind ∈ kinds ts := by simp [split]
        obtain ⟨u,member,same⟩ := List.mem_map.mp inside
        exact absurd (same.trans ending) (real u member)
  · cases rest

theorem stream_complete (ending : eof.kind = .ending) (reads : Reads 0 (kinds ts) e []) :
    stream ⟨ts,.ok eof⟩ = .ok e := by
  obtain ⟨later,none,found⟩ := expression_complete ending ts.length 0 _ _ _ _ reads rfl (Nat.le_refl _)
  cases List.map_eq_nil_iff.mp none
  simp [stream,found,ending]

end Parser

theorem Query.compile_ok {source : String} {q : Query} : Query.compile source = .ok q ↔
    ∃ tree, Expr.parse source = .ok tree ∧ q = ⟨source,tree⟩ := by
  unfold Query.compile
  rw [bind_ok]
  exact ⟨fun ⟨tree,parsed,made⟩ => ⟨tree,parsed,(Except.ok.inj made).symm⟩,
    fun ⟨tree,parsed,made⟩ => ⟨tree,parsed,congrArg _ made.symm⟩⟩

theorem Query.compile_error {source : String} {fault : ParseError} :
    Query.compile source = .error fault ↔ Expr.parse source = .error fault := by
  unfold Query.compile
  cases Expr.parse source <;> simp [bind,Except.bind,pure,Except.pure]

theorem Expr.parse_reads {source : String} {tree : Expr} : Expr.parse source = .ok tree ↔
    ∃ ending, (TokenStream.ofText source).ending = .ok ending ∧
      Reads 0 (kinds (TokenStream.ofText source).tokens) tree [] := by
  constructor
  · intro parsed
    exact stream_sound (fun t inside => (TokenStream.ofText_proper source t inside).1)
      (TokenStream.ofText_ending source) parsed
  · rintro ⟨ending,ended,reads⟩
    have same : TokenStream.ofText source = ⟨(TokenStream.ofText source).tokens,.ok ending⟩ := by
      rw [← ended]
    unfold Expr.parse
    rw [same]
    exact stream_complete (TokenStream.ofText_ending source ending ended) reads

theorem Query.compile_reads {source : String} {tree : Expr} : Query.compile source = .ok ⟨source,tree⟩ ↔
    ∃ ending, (TokenStream.ofText source).ending = .ok ending ∧
      Reads 0 (kinds (TokenStream.ofText source).tokens) tree [] := by
  rw [← Expr.parse_reads,Query.compile_ok]
  constructor
  · rintro ⟨other,parsed,same⟩
    cases same
    exact parsed
  · intro parsed
    exact ⟨tree,parsed,rfl⟩

-- How strongly an operator binds shapes the tree but never refuses a text: what compiles is
-- decided by the grammar alone.
theorem Query.compile_accepts (source : String) : (∃ q, Query.compile source = .ok q) ↔
    ∃ tokens ending, tokenize source = .ok (tokens ++ [ending]) ∧ ending.kind = .ending ∧
      Grammar.Expression (tokens.map (·.kind)) := by
  constructor
  · rintro ⟨q,compiled⟩
    obtain ⟨tree,parsed,_⟩ := Query.compile_ok.mp compiled
    obtain ⟨ending,ended,reads⟩ := Expr.parse_reads.mp parsed
    obtain ⟨y,split,derived⟩ := reads.derived
    rw [List.append_nil] at split
    subst split
    exact ⟨_,ending,tokenize_ok.mpr ⟨ending,ended,rfl⟩,TokenStream.ofText_ending source ending ended,
      derived⟩
  · rintro ⟨tokens,ending,read,_,derived⟩
    obtain ⟨last,ended,same⟩ := tokenize_ok.mp read
    obtain ⟨rfl,_⟩ := List.append_inj' same rfl
    have stops : Grammar.Stops [] := ⟨⟨rfl,rfl⟩,rfl⟩
    obtain ⟨tree,reads⟩ := derived.reads (Grammar.below_all _) (Nat.lt_succ_self _) stops
    rw [List.append_nil] at reads
    exact ⟨⟨source,tree⟩,Query.compile_ok.mpr ⟨tree,Expr.parse_reads.mpr ⟨last,ended,reads⟩,rfl⟩⟩

end JsonQuery
