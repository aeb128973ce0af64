import JsonQuery.Proofs.Acceptance
import JsonQuery.Proofs.Expr.Printable
import JsonQuery.Proofs.Token.Layout

namespace JsonQuery

open JsonQuery.Parser

theorem TokenStream.ofText_sourced (source : String) : Sourced (kinds (ofText source).tokens) := by
  intro k inside
  obtain ⟨t,member,rfl⟩ := List.mem_map.mp inside
  exact ((ofText_again source).1 t member).readable

theorem Expr.Printable.parse {e : Expr} (printable : e.Printable) : Expr.parse e.render = .ok e := by
  let words := (e.phrase false).map fun k => (k,k.spelling)
  have written : ∀ word ∈ words, Written word.2.toList word.1 := by
    intro word inside
    obtain ⟨k,member,rfl⟩ := List.mem_map.mp inside
    exact (printable.writes k member).written
  have texts : words.map (·.2) = (e.phrase false).map TokenKind.spelling := by simp [words]
  have kinds_words : words.map (·.1) = e.phrase false := (List.map_map ..).trans (List.map_id _)
  obtain ⟨tokens,position,ended⟩ := TokenStream.ofText_joined written
  rw [texts] at tokens ended
  rw [kinds_words] at tokens
  have read := printable.whole [] ⟨⟨rfl,rfl⟩,rfl⟩
  rw [List.append_nil,← tokens] at read
  exact Expr.parse_reads.mpr ⟨_,ended,read⟩

-- Whatever text a query came from, its tree printed is a text of the same tree.
theorem Query.compile_render (source : String) (q : Query) (compiled : Query.compile source = .ok q) :
    Query.compile q.tree.render = .ok ⟨q.tree.render,q.tree⟩ := by
  obtain ⟨tree,parsed,rfl⟩ := Query.compile_ok.mp compiled
  obtain ⟨_,_,reads⟩ := Expr.parse_reads.mp parsed
  have printable := reads.printable (TokenStream.ofText_sourced source)
  exact Query.compile_ok.mpr ⟨tree,printable.parse,rfl⟩

-- The reversing slice is a base of its own, the index behind the star runs on each element.
theorem Query.compile_render_projections :
    let tree : Expr := .pipe (.projectArray (.field "a") (some (.within (.field "b") (.index 0))))
      (.projectArray (.slice ⟨none,none,some (-1)⟩) none)
    Query.compile "a[*].b[0]|[::-1]" = .ok ⟨"a[*].b[0]|[::-1]",tree⟩ ∧
      tree.render = "( ( \"a\" ) [ * ] . \"b\" [ 0 ] ) | ( [ : : -1 ] )" ∧
      Query.compile tree.render = .ok ⟨tree.render,tree⟩ := by
  intro tree
  have compiled : Query.compile "a[*].b[0]|[::-1]" = .ok ⟨"a[*].b[0]|[::-1]",tree⟩ := rfl
  have again := Query.compile_render _ _ compiled
  exact ⟨compiled,rfl,again⟩

end JsonQuery
