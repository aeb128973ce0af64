import JsonQuery.Proofs.Token.Demand

namespace JsonQuery

open JsonQuery.Parser

-- A text that is one token as a whole: it starts with it, and the ending stands behind.
theorem TokenStream.ofText_written {text : String} (written : Written text.toList kind) :
    ofText text = ⟨[⟨kind,text,.start⟩],.ok ⟨.ending,"",Position.start.passing text.toList⟩⟩ := by
  have opened : (Cursor.start text).rest = [] ++ (text.toList ++ []) := (List.append_nil _).symm
  obtain ⟨place,found,none⟩ := Cursor.next_written written (show Blank [] from nofun) .nil opened
  generalize (Cursor.start text).skipBlanks.advance text.toList.length = after at found none
  obtain ⟨gap,_,split,first,behind⟩ := Cursor.next_passes found
  rw [none,List.append_nil] at split
  cases List.self_eq_append_left.mp split
  have blank : Blank after.rest := by rw [none]; exact nofun
  obtain ⟨last,final,ended⟩ := Cursor.next_blank blank
  obtain ⟨gap,_,split,second,_⟩ := Cursor.next_passes ended
  cases (List.append_eq_nil_iff.mp (split.symm.trans none)).1
  have place : place = Position.start := first
  have last : last = Position.start.passing text.toList := second.trans (place ▸ behind)
  change ofCursor (Cursor.start text) = _
  rw [ofCursor_found found written.real,ofCursor_ended ended rfl,place,last]

theorem tokenize_written {text : String} (written : Written text.toList kind) : tokenize text =
    .ok [⟨kind,text,.start⟩,⟨.ending,"",Position.start.passing text.toList⟩] := by
  simp [tokenize,TokenStream.ofText_written written,Except.map]

-- The other way round: a token whose text is the whole text is read from it alone.
theorem tokenize_single {text : String} {token ending : Token} (read : tokenize text = .ok [token,ending])
    (whole : token.text = text) : readToken text.toList = ⟨.ok token.kind,text.toList.length⟩ := by
  obtain ⟨last,_,same⟩ := tokenize_ok.mp read
  have inside : token ∈ (TokenStream.ofText text).tokens := by
    have split : (TokenStream.ofText text).tokens ++ [last] = [token] ++ [ending] := same
    rw [(List.append_inj' split rfl).1]
    exact List.mem_singleton_self token
  have written := (TokenStream.ofText_again text).1 token inside [] .nil
  rwa [List.append_nil,whole] at written

theorem Query.compile_written {text : String} {tree : Expr} (written : Written text.toList kind)
    (reads : Reads 0 [kind] tree []) : Query.compile text = .ok ⟨text,tree⟩ := by
  refine Query.compile_reads.mpr ⟨_,congrArg TokenStream.ending (TokenStream.ofText_written written),?_⟩
  rw [TokenStream.ofText_written written]
  exact reads

end JsonQuery
