import JsonQuery.Proofs.Json.Quoted
import JsonQuery.Proofs.Token.Single

namespace JsonQuery

open JsonQuery.Parser

namespace Json

theorem isQuoted_iff {text content : String} : IsQuoted text content ↔
    ∃ body, text.toList = '"' :: body ∧ readString body = some (content.toList,[]) := by
  constructor
  · rintro ⟨inside,whole,denotes⟩
    exact ⟨_,whole,readString_iff.mpr ⟨inside,rfl,denotes⟩⟩
  · rintro ⟨body,whole,read⟩
    obtain ⟨inside,split,denotes⟩ := readString_iff.mp read
    exact ⟨inside,by rw [whole,split],denotes⟩

theorem IsQuoted.read {text content : String} (quoted : IsQuoted text content) :
    Json.read text = some (.string content) := by
  obtain ⟨body,whole,read⟩ := isQuoted_iff.mp quoted
  have value : readValue depthLimit ('"' :: body) = some (.string content,[]) := by
    simp [depthLimit,readValue,readScalar,read]
  simp [Json.read,readList,whole,skipBlank,isBlank,value]

theorem IsQuoted.written {text name : String} (quoted : IsQuoted text name) :
    Written text.toList (.quotedIdentifier name) := by
  obtain ⟨inside,whole,denotes⟩ := quoted
  rw [whole]
  intro rest _
  have read := denotes.readQuoted 1 rest
  rw [List.cons_append,List.append_assoc,List.singleton_append]
  exact (congrArg (Reading.map _) read).trans (by simp [Reading.map,Except.map]; omega)

-- Without control characters the scanner takes no more for a quoted name than documents take
-- for a string.
theorem isQuoted_of_read {text name : String} (opens : text.toList.head? = some '"')
    (read : readToken text.toList = ⟨.ok (.quotedIdentifier name),text.toList.length⟩)
    (visible : ∀ c ∈ text.toList, 0x20 ≤ c.toNat) : IsQuoted text name := by
  obtain ⟨body,whole⟩ := List.head?_eq_some_iff.mp opens
  rw [whole] at read visible
  obtain ⟨content,found,same⟩ := Reading.map_ok (congrArg Reading.outcome read)
  obtain ⟨inside,tail,scanned⟩ := readQuoted_scanned found
  have length : (readQuoted 1 body).length = ('"' :: body).length := congrArg Reading.length read
  have size := congrArg List.length scanned.whole
  rw [scanned.length,List.length_cons] at length
  rw [List.length_append,List.length_cons] at size
  obtain rfl := List.length_eq_zero_iff.mp (show tail.length = 0 by omega)
  cases same
  refine ⟨inside,by rw [whole,scanned.whole],?_⟩
  rw [String.toList_ofList]
  refine scanned.denotes fun c member => visible c (List.mem_cons_of_mem _ ?_)
  rw [scanned.whole]
  exact List.mem_append_left _ member

end Json

-- A string of a document, in any of its spellings, is the quoted name that it stands for, and
-- selects the entry of that key. Every key has a spelling, and every quoted name that is free
-- of control characters is a string of a document.
theorem Query.compile_quoted :
    (∀ text name, Json.IsQuoted text name ↔
      ∃ body, text.toList = '"' :: body ∧ Json.readString body = some (name.toList,[])) ∧
    (∀ text name, Json.IsQuoted text name → Json.read text = some (.string name) ∧
      tokenize text = .ok [⟨.quotedIdentifier name,text,.start⟩,
        ⟨.ending,"",Position.start.passing text.toList⟩] ∧
      Query.compile text = .ok ⟨text,.field name⟩ ∧
      ∀ entries v, Entries.get? entries name = some v → search text (.object entries) = .ok v) ∧
    (∀ name, Json.IsQuoted (Json.quote name) name) ∧
    ∀ text name token ending, text.toList.head? = some '"' → tokenize text = .ok [token,ending] →
      token.kind = .quotedIdentifier name → token.text = text →
      (∀ c ∈ text.toList, 0x20 ≤ c.toNat) → Json.IsQuoted text name := by
  refine ⟨fun _ _ => Json.isQuoted_iff,fun text name quoted => ?_,Json.quote_isQuoted,?_⟩
  · have compiled : Query.compile text = .ok ⟨text,.field name⟩ :=
      Query.compile_written quoted.written (.expression (.quoted rfl) (.done nofun))
    refine ⟨quoted.read,tokenize_written quoted.written,compiled,fun entries v found => ?_⟩
    simp [search,compiled,Query.evaluate,Expr.eval,Json.property?,Json.entries,found,Except.mapError,
      bind,Except.bind]
  · intro text name token ending opens read kind whole visible
    have single := tokenize_single read whole
    rw [kind] at single
    exact Json.isQuoted_of_read opens single visible

-- Two forms of one key: a surrogate pair with an escaped letter, and the characters as they are.
theorem Query.compile_quoted_pair :
    let text := "\"\\uD83D\\ude00\\u0041\\/\""
    let plain := "\"😀A/\""
    let token : Token := ⟨.quotedIdentifier "😀A/",plain,.start⟩
    let ending : Token := ⟨.ending,"",⟨5,1,6⟩⟩
    Json.IsQuoted text "😀A/" ∧ Query.compile text = .ok ⟨text,.field "😀A/"⟩ ∧
      search text (.object [("a",.null),("😀A/",.bool true)]) = .ok (.bool true) ∧
      tokenize plain = .ok [token,ending] ∧ (∀ c ∈ plain.toList, 0x20 ≤ c.toNat) ∧
      Json.IsQuoted plain "😀A/" := by
  intro text plain token ending
  obtain ⟨exactly,selects,_,converse⟩ := Query.compile_quoted
  have quoted : Json.IsQuoted text "😀A/" :=
    (exactly _ _).mpr ⟨text.toList.tail,by decide +kernel,by decide +kernel⟩
  have read : tokenize plain = .ok [token,ending] := by decide +kernel
  have opens : plain.toList.head? = some '"' := by decide +kernel
  have all : (plain.toList.all fun c => 0x20 ≤ c.toNat) = true := by decide +kernel
  have visible : ∀ c ∈ plain.toList, 0x20 ≤ c.toNat := by simpa using all
  obtain ⟨_,_,compiled,found⟩ := selects _ _ quoted
  exact ⟨quoted,compiled,found _ _ rfl,read,visible,converse _ _ token ending opens read rfl rfl visible⟩

end JsonQuery
