import JsonQuery.Proofs.Acceptance
import JsonQuery.Proofs.Expr.ParserLocated
import JsonQuery.Proofs.Token.Layout

namespace JsonQuery

open JsonQuery.Parser

theorem Spelled.words (spelled : Spelled ks) : ∃ words : List (TokenKind × String),
    words.map (·.1) = ks ∧ ∀ word ∈ words, Written word.2.toList word.1 := by
  induction ks with
  | nil => exact ⟨[],rfl,fun word inside => absurd inside List.not_mem_nil⟩
  | cons k ks ih =>
      obtain ⟨⟨text,first⟩,others⟩ := List.forall_mem_cons.mp spelled
      obtain ⟨words,rfl,written⟩ := ih others
      exact ⟨(k,text) :: words,rfl,List.forall_mem_cons.mpr ⟨first,written⟩⟩

-- Tokens that can be written make up a text, and a phrase of the grammar one that compiles.
theorem Spelled.source (spelled : Spelled ks) : ∃ source ending,
    (TokenStream.ofText source).ending = .ok ending ∧ kinds (TokenStream.ofText source).tokens = ks := by
  obtain ⟨words,rfl,written⟩ := spelled.words
  obtain ⟨tokens,position,ended⟩ := TokenStream.ofText_joined written
  exact ⟨_,_,ended,tokens⟩

theorem Grammar.Expression.compiles (derived : Grammar.Expression ks) (spelled : Spelled ks) :
    ∃ source q, Query.compile source = .ok q ∧ kinds (TokenStream.ofText source).tokens = ks := by
  obtain ⟨source,ending,ended,rfl⟩ := spelled.source
  obtain ⟨tree,reads⟩ := derived.whole
  exact ⟨source,_,Query.compile_reads.mpr ⟨ending,ended,reads⟩,rfl⟩

theorem TokenStream.tokens_all (s : TokenStream) : kinds s.tokens <+: kinds s.all :=
  ⟨_,(kinds_append ..).symm⟩

theorem TokenStream.before_tokens {s : TokenStream} (split : s.all = before ++ t :: after) :
    before <+: s.tokens := by
  have shorter : before.length ≤ s.tokens.length := by
    have lengths := congrArg List.length split
    unfold TokenStream.all at lengths
    split at lengths <;> simp at lengths <;> omega
  exact List.prefix_of_prefix_length_le ⟨_,split.symm⟩ ⟨_,rfl⟩ shorter

-- The ending is looked at behind the last token, so it may as well be read as one.
theorem Expr.parse_all {source : String} (parsed : Expr.parse source = .ok tree) :
    ∃ rest, Reads 0 (kinds (TokenStream.ofText source).all) tree rest ∧ ahead rest = .ending := by
  obtain ⟨last,ended,reads⟩ := Expr.parse_reads.mp parsed
  obtain ⟨y,split,each⟩ := reads.local
  have kind := TokenStream.ofText_ending source last ended
  have whole : kinds (TokenStream.ofText source).all = y ++ [.ending] := by
    unfold TokenStream.all
    rw [ended,kinds_append,split,List.append_nil,kinds_cons,kind,kinds_nil]
  exact ⟨[.ending],whole ▸ each [.ending] rfl,rfl⟩

-- The first token that no query could continue with: what stands before it begins a text that
-- compiles, and with the token no text does.
theorem Query.compile_unexpected (source : String)
    (failed : Query.compile source = .error (.unexpected found expected position)) :
    ∃ before t after, (TokenStream.ofText source).all = before ++ t :: after ∧
      t.kind = found ∧ t.position = position ∧
      (∃ source' q, Query.compile source' = .ok q ∧
        kinds before <+: kinds (TokenStream.ofText source').all) ∧
      ∀ source' q, kinds before ++ [t.kind] <+: kinds (TokenStream.ofText source').all →
        Query.compile source' ≠ .ok q := by
  have raised : stream ⟨(TokenStream.ofText source).tokens,(TokenStream.ofText source).ending⟩ =
      .error (.unexpected found expected position) := by
    unfold Query.compile at failed
    rcases bind_error.mp failed with raised | ⟨_,_,absent⟩
    · exact raised
    · cases absent
  have located := stream_located (TokenStream.ofText_ending source) raised
  change Located _ _ (TokenStream.ofText source).all found position at located
  generalize all : (TokenStream.ofText source).all = tokens at located ⊢
  cases located with
  | @stands before z t after refused spelled completed =>
      refine ⟨before,t,after,rfl,rfl,rfl,?_,?_⟩
      · have written : Spelled (kinds before) := by
          intro k inside
          obtain ⟨u,member,rfl⟩ := List.mem_map.mp inside
          exact ⟨u.text,(TokenStream.ofText_again source).1 u
            ((TokenStream.before_tokens all).subset member)⟩
        obtain ⟨source',q,compiled,same⟩ := completed.compiles (written.append spelled)
        have whole := TokenStream.tokens_all (TokenStream.ofText source')
        rw [same] at whole
        exact ⟨source',q,compiled,(List.prefix_append _ _).trans whole⟩
      · rintro source' q ⟨later,split⟩ compiled
        obtain ⟨tree,parsed,_⟩ := Query.compile_ok.mp compiled
        obtain ⟨rest,reads,ended⟩ := Expr.parse_all parsed
        rw [← split,List.append_assoc] at reads
        exact refused later ⟨tree,rest,reads,ended⟩

-- `a.[b c]` is refused at `c`: `a.[b` can be completed, and `a.[b c` cannot.
theorem Query.compile_unexpected_element :
    Query.compile "a.[b c]" = .error (.unexpected (.identifier "c") .listEnd ⟨5,1,6⟩) ∧
      ∃ before t after, (TokenStream.ofText "a.[b c]").all = before ++ t :: after ∧
        t.kind = .identifier "c" ∧ t.position = ⟨5,1,6⟩ ∧
        (∃ source' q, Query.compile source' = .ok q ∧
          kinds before <+: kinds (TokenStream.ofText source').all) ∧
        ∀ source' q, kinds before ++ [t.kind] <+: kinds (TokenStream.ofText source').all →
          Query.compile source' ≠ .ok q := by
  have failed : Query.compile "a.[b c]" = .error (.unexpected (.identifier "c") .listEnd ⟨5,1,6⟩) := rfl
  exact ⟨failed,Query.compile_unexpected _ failed⟩

end JsonQuery
