import JsonQuery.Proofs.Json.Quoted

namespace JsonQuery
open Number

def escapeMark (mark : Char) (content : List Char) : List Char :=
  content.flatMap fun c => if c = mark then ['\\',c] else [c]

def between (mark : Char) (content : String) : String :=
  String.ofList (mark :: (escapeMark mark content.toList ++ [mark]))

namespace TokenKind

-- The text that a kind of token is printed as, one of the many it can have been read from.
def spelling : TokenKind → String
  | .integer n => toString n
  | .float x => Layout.document.render x
  | .rawString s => between '\'' s
  | .literal text => between '\x60' text
  | .identifier name => name
  | .quotedIdentifier name => Json.quote name
  | .variable name => "$" ++ name
  | .symbol s => s.text
  | .ending => ""

end TokenKind

-- What can stand between two marks: a backslash keeps the character behind it, and before a
-- mark it would have been dropped.
inductive Paired (mark : Char) : List Char → Prop where
  | nil : Paired mark []
  | pair (other : next ≠ mark) (later : Paired mark content) : Paired mark ('\\' :: next :: content)
  | plain (noEscape : c ≠ '\\') (later : Paired mark content) : Paired mark (c :: content)

section
variable {form : Enclosed} {mark : Char} {seen : Nat}

-- What was read is paired, and the text is what its marks were escaped to.
theorem readDelimited_paired (bar : mark ≠ '\\')
    (read : (readDelimited form mark seen text).outcome = .ok content) :
    Paired mark content ∧ ∃ rest, text = escapeMark mark content ++ mark :: rest := by
  fun_induction readDelimited form mark seen text generalizing content with
  | case1 | case3 => cases read
  | case2 seen rest => cases read; exact ⟨.nil,rest,rfl⟩
  | case4 seen next rest kept other =>
      rename_i ih
      obtain ⟨content,inner,rfl⟩ := Reading.map_ok read
      obtain ⟨paired,rest,rfl⟩ := ih inner
      by_cases same : next = mark
      · simp only [kept,if_pos same]
        exact ⟨.plain (same ▸ bar) paired,rest,by simp [escapeMark,same]⟩
      · simp only [kept,if_neg same]
        exact ⟨.pair same paired,rest,by simp [escapeMark,same,other]⟩
  | case5 seen c rest other noEscape ih =>
      obtain ⟨content,inner,rfl⟩ := Reading.map_ok read
      obtain ⟨paired,rest,rfl⟩ := ih inner
      exact ⟨.plain noEscape paired,rest,by simp [escapeMark,other]⟩

theorem readDelimited_escaped (bar : mark ≠ '\\') (paired : Paired mark content) (form : Enclosed)
    (seen : Nat) (rest : List Char) :
    readDelimited form mark seen (escapeMark mark content ++ mark :: rest) =
      ⟨.ok content,seen + (escapeMark mark content).length + 1⟩ := by
  induction paired generalizing seen with
  | nil => exact readDelimited_closed
  | @pair next content other later ih =>
      have front : escapeMark mark ('\\' :: next :: content) = '\\' :: next :: escapeMark mark content := by
        simp [escapeMark,other,bar.symm]
      rw [front,List.cons_append,List.cons_append,readDelimited_pair bar.symm,ih,if_neg other]
      simp [Reading.map,Except.map]
      omega
  | @plain c content noEscape later ih =>
      by_cases same : c = mark
      · have front : escapeMark mark (c :: content) = '\\' :: c :: escapeMark mark content := by
          simp [escapeMark,same]
        rw [front,List.cons_append,List.cons_append,readDelimited_pair bar.symm,ih,if_pos same]
        simp [Reading.map,Except.map]
        omega
      · have front : escapeMark mark (c :: content) = c :: escapeMark mark content := by
          simp [escapeMark,same]
        rw [front,List.cons_append,readDelimited_plain same noEscape,ih]
        simp [Reading.map,Except.map]
        omega

end

theorem isDigit_toDigits (inside : c ∈ Nat.toDigits 10 n) : isDigit c = true :=
  (isDigit_eq c).trans (Nat.isDigit_of_mem_toDigits (by decide) (by decide) inside)

theorem digitsValue_toDigits (n : Nat) : digitsValue (Nat.toDigits 10 n) = n := by
  have value := Nat.ofDigitChars_ten_toDigits (n := n)
  rw [Nat.ofDigitChars_eq_foldl] at value
  simpa [digitsValue,Nat.mul_comm] using value

theorem scan_toDigits (sign : List Char) (marked : sign = [] ∨ sign = ['-']) (n : Nat) :
    Numeral.scan (sign ++ Nat.toDigits 10 n) = ⟨sign,Nat.toDigits 10 n,[],[]⟩ := by
  have digits : AreDigits (Nat.toDigits 10 n) :=
    ⟨Nat.toDigits_ne_nil,fun _ => Nat.isDigit_of_mem_toDigits (by decide) (by decide)⟩
  have formed : (Numeral.mk sign (Nat.toDigits 10 n) [] []).Formed := ⟨marked,digits,.inl rfl,.inl rfl⟩
  simpa [Numeral.text] using formed.scan_text

theorem toString_numeral (n : Int) : ∃ sign m, (toString n).toList = sign ++ Nat.toDigits 10 m ∧
    (sign = [] ∨ sign = ['-']) ∧ n = if sign.isEmpty then (m : Int) else -m := by
  rw [Int.toString_eq_repr,Int.repr_eq_if]
  split
  · exact ⟨[],n.toNat,Nat.toList_repr,.inl rfl,by simp; omega⟩
  · exact ⟨['-'],(-n).toNat,by simp,.inr rfl,by simp; omega⟩

theorem readToken_toString (n : Int) (low : -0x8000000000000000 ≤ n) (high : n < 0x8000000000000000) :
    readToken (toString n).toList = ⟨.ok (.integer n),(toString n).toList.length⟩ := by
  obtain ⟨sign,m,text,marked,value⟩ := toString_numeral n
  have whole : (Numeral.scan (toString n).toList).wholeValue = n := by
    rw [text,scan_toDigits sign marked]
    simp only [Numeral.wholeValue,Numeral.negative,digitsValue_toDigits,value]
    cases sign <;> simp
  have length : (Numeral.scan (toString n).toList).length = (toString n).toList.length := by
    rw [text,scan_toDigits sign marked]
    simp [Numeral.length]
  have read : readNumeral (toString n).toList = ⟨.ok (.integer n),(toString n).toList.length⟩ := by
    unfold readNumeral
    simp only [whole,length]
    rw [text,scan_toDigits sign marked]
    simp [Nat.toDigits_ne_nil,Numeral.isWhole,low,high]
  obtain ⟨c,rest,first,numeral⟩ : ∃ c rest, (toString n).toList = c :: rest ∧
      (c == '-' || isDigit c) = true := by
    obtain ⟨d,digits,some⟩ := List.exists_cons_of_ne_nil (Nat.toDigits_ne_nil (b := 10) (n := m))
    rcases marked with rfl | rfl
    · exact ⟨d,digits,by rw [text,some]; rfl,by simp [isDigit_toDigits (some ▸ List.mem_cons_self)]⟩
    · exact ⟨'-',_,text,rfl⟩
  have bare : c ∉ ['"','\'','\x60'] := by
    simp only [List.mem_cons,List.not_mem_nil,or_false]
    rintro (rfl | rfl | rfl) <;> cases numeral
  rw [first] at read ⊢
  rw [readToken_bare bare,if_pos numeral,read]

theorem isNameStart_bare (start : isNameStart c = true) :
    c ∉ ['"','\'','\x60'] ∧ ¬(c == '-' || isDigit c) = true := by
  refine ⟨?_,fun numeral => ?_⟩
  · simp only [List.mem_cons,List.not_mem_nil,or_false]
    rintro (rfl | rfl | rfl) <;> cases start
  · simp only [Bool.or_eq_true,beq_iff_eq] at numeral
    rcases numeral with rfl | digit
    · cases start
    · simp [isNameStart,isDigit,Char.le_def,UInt32.le_iff_toNat_le] at start digit
      rcases start with letter | rfl
      · omega
      · simp at digit

-- A word that is a name as a whole.
def Named (name : List Char) : Prop := name ≠ [] ∧ nameAt name = name

theorem Named.start (named : Named name) : ∃ c later, name = c :: later ∧ isNameStart c = true := by
  obtain ⟨c,later,rfl⟩ := List.exists_cons_of_ne_nil named.1
  refine ⟨c,later,rfl,?_⟩
  by_contra other
  have whole := named.2
  simp [nameAt,other] at whole

theorem nameAt_named (present : nameAt text ≠ []) : Named (nameAt text) := by
  have again := nameAt_again text .nil
  rw [List.append_nil] at again
  exact ⟨present,again⟩

namespace TokenKind

-- What makes a kind of token one that is read from its own spelling.
def Writable : TokenKind → Prop
  | .integer n => -0x8000000000000000 ≤ n ∧ n < 0x8000000000000000
  | .rawString s => Paired '\'' s.toList
  | .literal text => Paired '\x60' text.toList ∧ Json.accepts text.toList = true
  | .identifier name | .variable name => Named name.toList
  | .quotedIdentifier _ | .symbol _ => True
  | .float _ | .ending => False

-- What is read from some text; of a float nothing is asked, since no tree is built from one.
def Readable : TokenKind → Prop
  | .float _ => True
  | kind => kind.Writable

theorem Writable.read {kind : TokenKind} (writable : kind.Writable) :
    readToken kind.spelling.toList = ⟨.ok kind,kind.spelling.toList.length⟩ := by
  cases kind with
  | integer n => exact readToken_toString n writable.1 writable.2
  | rawString s =>
      have content := readDelimited_escaped (by decide) writable .rawString 1 []
      simp only [spelling,between,String.toList_ofList]
      exact (congrArg (Reading.map _) content).trans (by simp [Reading.map,Except.map]; omega)
  | literal text =>
      obtain ⟨paired,valid⟩ := writable
      have content := readDelimited_escaped (by decide) paired .literal 1 []
      simp only [spelling,between,String.toList_ofList]
      change readLiteral _ = _
      simp [readLiteral,content,valid]
      omega
  | identifier name =>
      obtain ⟨c,later,whole,start⟩ := writable.start
      have same := writable.2
      simp only [spelling]
      rw [whole] at same ⊢
      rw [readToken_bare (isNameStart_bare start).1,if_neg (isNameStart_bare start).2,if_pos start,same,
        ← whole,String.ofList_toList]
  | quotedIdentifier name =>
      obtain ⟨inside,text,denotes⟩ := Json.quote_isQuoted name
      have content := denotes.readQuoted 1 []
      simp only [spelling,text]
      exact (congrArg (Reading.map _) content).trans (by simp [Reading.map,Except.map]; omega)
  | «variable» name =>
      have same := writable.2
      have named : ('$' == '$' && !(nameAt name.toList).isEmpty) = true := by
        simpa [same] using writable.1
      have text : ("$" ++ name).toList = '$' :: name.toList := by simp
      simp only [spelling,text]
      rw [readToken_bare (by decide),if_neg (by decide),if_neg (by decide),if_pos named,same,
        String.ofList_toList,List.length_cons]
  | symbol s =>
      have read := s.written [] .nil
      rwa [List.append_nil] at read
  | float | ending => cases writable

theorem Writable.written {kind : TokenKind} (writable : kind.Writable) :
    Written kind.spelling.toList kind := by
  have read := writable.read
  refine .of_read (fun empty => ?_) read
  rw [empty] at read
  cases read
  exact writable

end TokenKind

theorem readNumeral_readable (read : (readNumeral text).outcome = .ok kind) : kind.Readable := by
  unfold readNumeral at read
  dsimp only at read
  split at read
  · cases read
  · split at read
    · split at read
      · rename_i fits
        cases read
        exact fits
      · cases read
    · cases read
      trivial

theorem readToken_readable (present : text ≠ []) (read : (readToken text).outcome = .ok kind) :
    kind.Readable := by
  obtain ⟨c,rest,rfl⟩ := List.exists_cons_of_ne_nil present
  by_cases marked : c ∈ ['"','\'','\x60']
  · simp only [List.mem_cons,List.not_mem_nil,or_false] at marked
    rcases marked with rfl | rfl | rfl
    · obtain ⟨name,_,rfl⟩ := Reading.map_ok read
      trivial
    · obtain ⟨content,found,rfl⟩ := Reading.map_ok read
      simpa [TokenKind.Readable,TokenKind.Writable] using (readDelimited_paired (by decide) found).1
    · obtain ⟨content,found,valid,rfl⟩ := readLiteral_found read
      simpa [TokenKind.Readable,TokenKind.Writable,valid] using (readDelimited_paired (by decide) found).1
  rw [readToken_bare marked] at read
  split at read
  · exact readNumeral_readable read
  split at read
  · rename_i start
    cases read
    obtain ⟨later,whole⟩ := nameAt_start start rest
    have named : Named (nameAt (c :: rest)) := nameAt_named (by simp [whole])
    simpa [TokenKind.Readable,TokenKind.Writable] using named
  split at read
  · rename_i named
    cases read
    simp only [Bool.and_eq_true,Bool.not_eq_true',List.isEmpty_eq_false_iff] at named
    simpa [TokenKind.Readable,TokenKind.Writable] using nameAt_named named.2
  · unfold readSymbol at read
    split at read
    · cases read
      trivial
    · cases read

theorem Written.readable (written : Written text kind) : kind.Readable := by
  obtain ⟨c,rest,rfl,_⟩ := written.visible
  have read := written [] .nil
  rw [List.append_nil] at read
  exact readToken_readable (by simp) (congrArg Reading.outcome read)

end JsonQuery
