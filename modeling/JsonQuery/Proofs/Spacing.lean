import JsonQuery.Proofs.Acceptance
import JsonQuery.Proofs.Expr.Uniform
import JsonQuery.Proofs.Token.Layout

namespace JsonQuery

open JsonQuery.Parser

theorem TokenStream.sameKinds_of_spelled {s s' : TokenStream} {t t' : Token}
    (tokens : s'.tokens.map Token.spelled = s.tokens.map Token.spelled) (ended : s.ending = .ok t)
    (ended' : s'.ending = .ok t') (ending : t.kind = t'.kind) : SameKinds s s' := by
  refine ⟨?_,?_⟩
  · have kinds := congrArg (List.map Prod.fst) tokens
    rw [List.map_map,List.map_map] at kinds
    exact kinds.symm
  · rw [ended,ended']
    exact .ok ending

theorem Query.compile_alike (source source' : String)
    (alike : Parser.Alike Moved Eq (Expr.parse source) (Expr.parse source')) :
    (∃ tree, Query.compile source = .ok ⟨source,tree⟩ ∧ Query.compile source' = .ok ⟨source',tree⟩) ∨
      ∃ e e', Query.compile source = .error e ∧ Query.compile source' = .error e' ∧
        e.movedTo e'.position = e' := by
  unfold Query.compile
  generalize Expr.parse source = first at alike ⊢
  generalize Expr.parse source' = second at alike ⊢
  cases alike with
  | @ok tree _ same => exact .inl ⟨tree,rfl,same ▸ rfl⟩
  | @error e e' moved => exact .inr ⟨_,_,rfl,rfl,moved⟩

-- The texts of the tokens set apart by any blanks are the same tokens again, and the query
-- has the same tree or the same fault at its new place.
theorem Query.compile_spaced (source : String) (tokens : List Token) (ending : Token)
    (read : tokenize source = .ok (tokens ++ [ending])) (lead text : List Char) (front : Blank lead)
    (spaced : Spaced (tokens.map (·.text)) text) :
    (∃ others, tokenize (String.ofList (lead ++ text)) = .ok others ∧
      others.map Token.spelled = (tokens ++ [ending]).map Token.spelled) ∧
    ((∃ tree, Query.compile source = .ok ⟨source,tree⟩ ∧
        Query.compile (String.ofList (lead ++ text)) = .ok ⟨String.ofList (lead ++ text),tree⟩) ∨
      ∃ e e', Query.compile source = .error e ∧
        Query.compile (String.ofList (lead ++ text)) = .error e' ∧ e.movedTo e'.position = e') := by
  obtain ⟨last,ended,same⟩ := tokenize_ok.mp read
  obtain ⟨rfl,closed⟩ := List.append_inj' same rfl
  cases closed
  obtain ⟨written,empty⟩ := TokenStream.ofText_again source
  have words : ∀ word ∈ (TokenStream.ofText source).tokens.map Token.spelled,
      Written word.2.toList word.1 := by
    intro word member
    obtain ⟨t,inside,rfl⟩ := List.mem_map.mp member
    exact written t inside
  have texts : (TokenStream.ofText source).tokens.map (·.text) =
      ((TokenStream.ofText source).tokens.map Token.spelled).map (·.2) := by simp [Token.spelled]
  rw [texts] at spaced
  obtain ⟨spelled,position,ended'⟩ := TokenStream.ofText_spaced words spaced front
  have kind := TokenStream.ofText_ending source ending ended
  refine ⟨⟨_,tokenize_ok.mpr ⟨_,ended',rfl⟩,?_⟩,Query.compile_alike _ _ ?_⟩
  · rw [List.map_append,List.map_append,spelled]
    simp [Token.spelled,kind,empty ending ended]
  · exact stream_uniform sameKinds_view (TokenStream.sameKinds_of_spelled spelled ended ended' kind)

-- `a[*].'b'` is refused, and set apart it is refused at the place where the quote then stands.
theorem Query.compile_spaced_refused :
    let tokens : List Token := [⟨.identifier "a","a",⟨0,1,1⟩⟩,⟨.symbol .leftBracket,"[",⟨1,1,2⟩⟩,
      ⟨.symbol .star,"*",⟨2,1,3⟩⟩,⟨.symbol .rightBracket,"]",⟨3,1,4⟩⟩,⟨.symbol .dot,".",⟨4,1,5⟩⟩,
      ⟨.rawString "b","'b'",⟨5,1,6⟩⟩]
    let ending : Token := ⟨.ending,"",⟨8,1,9⟩⟩
    let text := ['a','\t','[',' ','\n','*',' ',']',' ','.',' ','\'','b','\'','\r']
    tokenize "a[*].'b'" = .ok (tokens ++ [ending]) ∧ Blank [' '] ∧
      Spaced (tokens.map (·.text)) text ∧
      (∃ others, tokenize (String.ofList ([' '] ++ text)) = .ok others ∧
        others.map Token.spelled = (tokens ++ [ending]).map Token.spelled) ∧
      Query.compile "a[*].'b'" = .error (.unexpected (.rawString "b") .afterDot ⟨5,1,6⟩) ∧
      Query.compile (String.ofList ([' '] ++ text)) =
        .error (.unexpected (.rawString "b") .afterDot ⟨12,2,7⟩) := by
  intro tokens ending text
  have read : tokenize "a[*].'b'" = .ok (tokens ++ [ending]) := by decide +kernel
  have front : Blank [' '] := by simp [Blank,isBlank]
  have tab : Blank ['\t'] := by simp [Blank,isBlank]
  have lines : Blank [' ','\n'] := by simp [Blank,isBlank]
  have behind : Blank ['\r'] := by simp [Blank,isBlank]
  have spaced : Spaced (tokens.map (·.text)) text := by
    refine @Spaced.more _ _ _ _ "a" tab (by simp) (@Spaced.more _ _ _ _ "[" lines (by simp) ?_)
    refine @Spaced.more _ _ _ _ "*" front (by simp) (@Spaced.more _ _ _ _ "]" front (by simp) ?_)
    exact @Spaced.more _ _ _ _ "." front (by simp) (@Spaced.last _ "'b'" behind)
  obtain ⟨again,_⟩ := Query.compile_spaced _ tokens _ read [' '] text front spaced
  refine ⟨read,front,spaced,again,?_,?_⟩
  · exact (map_error (f := fun _ => ())).mp (by decide +kernel)
  · exact (map_error (f := fun _ => ())).mp (by decide +kernel)

end JsonQuery
