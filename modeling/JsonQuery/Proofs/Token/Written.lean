import JsonQuery.Proofs.Number.Numeral
import JsonQuery.Proofs.Token.Stream

namespace JsonQuery
open Number

-- Where a token ends for certain: nothing stands behind it, or a blank.
def Apart (rest : List Char) : Prop := ∀ c later, rest = c :: later → isBlank c = true

theorem Apart.nil : Apart [] := nofun

theorem Apart.blank (blank : isBlank c = true) : Apart (c :: later) := by
  rintro _ _ ⟨rfl,rfl⟩
  exact blank

theorem isBlank_iff : isBlank c = true ↔ c = ' ' ∨ c = '\t' ∨ c = '\n' ∨ c = '\r' := by
  simp [isBlank,or_assoc]

-- No blank is a character of a name or a numeral, nor the second one of a longer symbol.
theorem blank_apart (blank : isBlank c = true) : isNameChar c = false ∧ isDigit c = false ∧
    c ∉ ['.','e','E',']','?','|','&','='] := by
  rcases isBlank_iff.mp blank with rfl | rfl | rfl | rfl <;> decide

theorem takeWhile_apart {p : Char → Bool} (stops : ∀ c, isBlank c = true → p c = false)
    (apart : Apart rest) : rest.takeWhile p = [] := by
  cases rest with
  | nil => rfl
  | cons c later => simp [stops c (apart c later rfl)]

-- The text is one token of the kind wherever it stands apart.
def Written (text : List Char) (kind : TokenKind) : Prop :=
  ∀ rest, Apart rest → readToken (text ++ rest) = ⟨.ok kind,text.length⟩

theorem readToken_blank (blank : isBlank c = true) (kind : TokenKind) :
    (readToken (c :: rest)).outcome ≠ .ok kind := by
  rcases isBlank_iff.mp blank with rfl | rfl | rfl | rfl <;> exact nofun

theorem Written.visible (written : Written text kind) :
    ∃ c rest, text = c :: rest ∧ isBlank c = false := by
  cases text with
  | nil =>
      have read := written [' '] (.blank rfl)
      exact absurd (congrArg Reading.outcome read) (readToken_blank rfl kind)
  | cons c rest =>
      refine ⟨c,rest,rfl,Bool.eq_false_iff.mpr fun blank => ?_⟩
      have read := written [] .nil
      exact absurd (congrArg Reading.outcome read) (readToken_blank blank kind)

-- A reading that met its own end: whatever stands behind would not have changed it.
def Settled (read : Nat → List Char → Reading α) (seen : Nat) (text : List Char) (a : α) : Prop :=
  ∃ used rest, text = used ++ rest ∧
    ∀ others, read seen (used ++ others) = ⟨.ok a,seen + used.length⟩

theorem Settled.behind {read : Nat → List Char → Reading α} (front : List Char) {f : α → α}
    (step : ∀ rest, read seen (front ++ rest) = (read (seen + front.length) rest).map f)
    (later : Settled read (seen + front.length) text a) : Settled read seen (front ++ text) (f a) := by
  obtain ⟨used,rest,rfl,settled⟩ := later
  refine ⟨front ++ used,rest,(List.append_assoc ..).symm,fun others => ?_⟩
  rw [List.append_assoc,step,settled]
  simp [Reading.map,Except.map,Nat.add_assoc]

section
variable {seen : Nat} {rest : List Char}

theorem readQuoted_short (found : shortEscape? letter = some decoded) :
    readQuoted seen ('\\' :: letter :: rest) = (readQuoted (seen + 2) rest).map (decoded :: ·) := by
  have other : letter ≠ 'u' := by rintro rfl; cases found
  rw [readQuoted.eq_def]
  simp [found]

theorem readQuoted_unicode (value : hexValue? [a,b,c,d] = some code)
    (high : isHighSurrogate code = false) (low : isLowSurrogate code = false) :
    readQuoted seen ('\\' :: 'u' :: a :: b :: c :: d :: rest) =
      (readQuoted (seen + 6) rest).map (Char.ofNat code :: ·) := by
  rw [readQuoted.eq_def]
  simp [value,high,low]

theorem readQuoted_pair (first : hexValue? [a,b,c,d] = some high) (opens : isHighSurrogate high = true)
    (second : hexValue? [e,f,g,h] = some low) (closes : isLowSurrogate low = true) :
    readQuoted seen ('\\' :: 'u' :: a :: b :: c :: d :: '\\' :: 'u' :: e :: f :: g :: h :: rest) =
      (readQuoted (seen + 12) rest).map (joinSurrogates high low :: ·) := by
  rw [readQuoted.eq_def]
  simp [first,opens,second,closes]

theorem readQuoted_plain (noQuote : c ≠ '"') (noEscape : c ≠ '\\') :
    readQuoted seen (c :: rest) = (readQuoted (seen + 1) rest).map (c :: ·) := by
  rw [readQuoted.eq_def]
  simp [noEscape]

end

theorem readQuoted_settled (read : (readQuoted seen text).outcome = .ok name) :
    Settled readQuoted seen text name := by
  fun_induction readQuoted seen text generalizing name with
  | case2 seen rest =>
      cases read
      exact ⟨['"'],rest,rfl,fun others => by rw [List.singleton_append,readQuoted.eq_def]; rfl⟩
  | case5 seen a b c d high first opens e f g h tail low second closes ih =>
      obtain ⟨name,inner,rfl⟩ := Reading.map_ok read
      exact .behind ['\\','u',a,b,c,d,'\\','u',e,f,g,h]
        (fun _ => readQuoted_pair first opens second closes) (ih inner)
  | case10 seen a b c d tail code value high low ih =>
      obtain ⟨name,inner,rfl⟩ := Reading.map_ok read
      exact .behind ['\\','u',a,b,c,d]
        (fun _ => readQuoted_unicode value (by simpa using high) (by simpa using low)) (ih inner)
  | case12 seen letter rest _ decoded found ih =>
      obtain ⟨name,inner,rfl⟩ := Reading.map_ok read
      exact .behind ['\\',letter] (fun _ => readQuoted_short found) (ih inner)
  | case15 seen c rest noQuote _ _ noEscape ih =>
      obtain ⟨name,inner,rfl⟩ := Reading.map_ok read
      exact .behind [c] (fun _ => readQuoted_plain noQuote noEscape) (ih inner)
  | _ => cases read

section
variable {form : Enclosed} {delimiter : Char} {seen : Nat} {rest : List Char}

theorem readDelimited_closed :
    readDelimited form delimiter seen (delimiter :: rest) = ⟨.ok [],seen + 1⟩ := by
  rw [readDelimited.eq_def]
  simp

theorem readDelimited_pair (other : '\\' ≠ delimiter) :
    readDelimited form delimiter seen ('\\' :: next :: rest) =
      (readDelimited form delimiter (seen + 2) rest).map
        ((if next = delimiter then [next] else ['\\',next]) ++ ·) := by
  rw [readDelimited.eq_def]
  simp [other]

theorem readDelimited_plain (other : c ≠ delimiter) (noEscape : c ≠ '\\') :
    readDelimited form delimiter seen (c :: rest) =
      (readDelimited form delimiter (seen + 1) rest).map (c :: ·) := by
  rw [readDelimited.eq_def]
  simp [other,noEscape]

end

theorem readDelimited_settled {form : Enclosed} {delimiter : Char}
    (read : (readDelimited form delimiter seen text).outcome = .ok content) :
    Settled (readDelimited form delimiter) seen text content := by
  fun_induction readDelimited form delimiter seen text generalizing content with
  | case1 | case3 => cases read
  | case2 seen rest =>
      cases read
      exact ⟨[delimiter],rest,rfl,fun _ => readDelimited_closed⟩
  | case4 seen next rest kept other =>
      rename_i ih
      obtain ⟨content,inner,rfl⟩ := Reading.map_ok read
      exact .behind ['\\',next] (fun _ => readDelimited_pair other) (ih inner)
  | case5 seen next rest other noEscape ih =>
      obtain ⟨content,inner,rfl⟩ := Reading.map_ok read
      exact .behind [next] (fun _ => readDelimited_plain other noEscape) (ih inner)

theorem Apart.endsNumeral (apart : Apart rest) : EndsNumeral rest := by
  refine ⟨takeWhile_apart (fun _ blank => (blank_apart blank).2.1) apart,?_⟩
  cases rest with
  | nil => simp
  | cons c later =>
      have other := (blank_apart (apart c later rfl)).2.2
      simp only [List.mem_cons,not_or] at other
      simp [other.1,other.2.1,other.2.2.1]

theorem readNumeral_length (text : List Char) :
    (readNumeral text).length = (Numeral.scan text).text.length := by
  rw [Numeral.text_length]
  unfold readNumeral
  dsimp only
  split
  · rfl
  · split
    · split <;> rfl
    · rfl

-- A numeral is read off its parts, whatever text they were found in.
theorem readNumeral_again (read : (readNumeral text).outcome = .ok kind) :
    (Numeral.scan text).text <+: text ∧ ∀ others, Apart others →
      readNumeral ((Numeral.scan text).text ++ others) = ⟨.ok kind,(Numeral.scan text).text.length⟩ := by
  have digits : (Numeral.scan text).whole ≠ [] := by
    intro none
    simp [readNumeral,none,Reading.fault] at read
  refine ⟨Numeral.scan_front digits,fun others apart => ?_⟩
  unfold readNumeral at read ⊢
  rw [Numeral.scan_again digits apart.endsNumeral,Numeral.text_length]
  simp only [List.isEmpty_iff,if_neg digits] at read ⊢
  split at read
  · rename_i integral
    rw [if_pos integral]
    split at read
    · rename_i fits
      rw [if_pos fits]
      exact congrArg (Reading.mk · _) read
    · cases read
  · rename_i fractional
    rw [if_neg fractional]
    exact congrArg (Reading.mk · _) read

theorem nameAt_front (text : List Char) : nameAt text <+: text := by
  unfold nameAt
  split
  · split
    · exact List.takeWhile_prefix _
    · exact List.nil_prefix
  · exact List.nil_prefix

theorem nameAt_apart (apart : Apart rest) : nameAt rest = [] := by
  unfold nameAt
  split
  · rename_i c later
    have plain : isNameChar c = false := (blank_apart (apart c later rfl)).1
    simp only [isNameChar,Bool.or_eq_false_iff] at plain
    simp [plain.1]
  · rfl

theorem nameAt_again (text : List Char) (apart : Apart next) :
    nameAt (nameAt text ++ next) = nameAt text := by
  have stops := takeWhile_apart (fun _ blank => (blank_apart blank).1) apart
  cases text with
  | nil => exact nameAt_apart apart
  | cons c later =>
      by_cases start : isNameStart c = true
      · have whole : nameAt (c :: later) = c :: later.takeWhile isNameChar := by
          simp [nameAt,start,isNameChar]
        have again := takeWhile_again later stops
        rw [whole,List.cons_append]
        simp [nameAt,start,isNameChar] at again ⊢
        exact again
      · have none : nameAt (c :: later) = [] := by simp [nameAt,start]
        rw [none]
        exact nameAt_apart apart

namespace Symbol

theorem scan?_front {chars : List Char} (found : scan? chars = some s) :
    s.text.toList <+: chars := by
  unfold scan? at found
  split at found <;> cases found <;> exact ⟨_,rfl⟩

theorem scan?_apart (s : Symbol) (apart : Apart next) : scan? (s.text.toList ++ next) = some s := by
  cases next with
  | nil => cases s <;> rfl
  | cons c later =>
      rcases isBlank_iff.mp (apart c later rfl) with rfl | rfl | rfl | rfl <;> cases s <;> rfl

-- The dollar stands alone where no name follows.
theorem text_unnamed {s : Symbol} (whole : s.text.toList = c :: later) (apart : Apart next) :
    ¬(c == '$' && !(nameAt (later ++ next)).isEmpty) = true := by
  by_cases dollar : c = '$'
  · subst dollar
    cases s <;> cases whole
    simp [nameAt_apart apart]
  · simp [dollar]

end Symbol

-- What is not put between marks is told by its first character.
theorem readToken_bare (bare : c ∉ ['"','\'','\x60']) : readToken (c :: rest) =
    if c == '-' || isDigit c then readNumeral (c :: rest)
    else if isNameStart c then
      ⟨.ok (.identifier (String.ofList (nameAt (c :: rest)))),(nameAt (c :: rest)).length⟩
    else if c == '$' && !(nameAt rest).isEmpty then
      ⟨.ok (.variable (String.ofList (nameAt rest))),(nameAt rest).length + 1⟩
    else readSymbol c (c :: rest) := by
  simp only [List.mem_cons,List.not_mem_nil,or_false,not_or] at bare
  rw [readToken.eq_def]
  split <;> simp_all

theorem nameAt_start (start : isNameStart c = true) (rest : List Char) :
    ∃ later, nameAt (c :: rest) = c :: later := ⟨rest.takeWhile isNameChar,by simp [nameAt,start,isNameChar]⟩

theorem readSymbol_again (read : (readSymbol c text).outcome = .ok kind) :
    ∃ s : Symbol, s.text.toList <+: text ∧ (readSymbol c text).length = s.text.toList.length ∧
      ∀ others, Apart others →
        readSymbol c (s.text.toList ++ others) = ⟨.ok kind,s.text.toList.length⟩ := by
  unfold readSymbol at read
  split at read
  · rename_i s found
    cases read
    refine ⟨s,Symbol.scan?_front found,?_,fun others apart => ?_⟩
    · simp [readSymbol,found,String.length_toList]
    · simp [readSymbol,Symbol.scan?_apart s apart,String.length_toList]
  · cases read

-- A reader of the whole token that does so at its start, and would again with anything apart
-- behind what it took.
structure Repeats (text used : List Char) (kind : TokenKind) : Prop where
  taken : used <+: text
  length : (readToken text).length = used.length
  written : Written used kind

theorem Settled.repeats {read : Nat → List Char → Reading (List Char)} {mark : Char}
    (settled : Settled read 1 rest content)
    (token : ∀ text n, read 1 text = ⟨.ok content,n⟩ → readToken (mark :: text) = ⟨.ok kind,n⟩) :
    ∃ used, Repeats (mark :: rest) used kind := by
  obtain ⟨used,behind,rfl,again⟩ := settled
  have read : ∀ others, readToken (mark :: used ++ others) = ⟨.ok kind,(mark :: used).length⟩ := by
    intro others
    rw [List.cons_append,token _ _ (again others),List.length_cons,Nat.add_comm]
  exact ⟨mark :: used,⟨behind,rfl⟩,congrArg Reading.length (read behind),fun others _ => read others⟩

theorem readLiteral_found (read : (readLiteral rest).outcome = .ok kind) : ∃ content,
    (readDelimited .literal '\x60' 1 rest).outcome = .ok content ∧
      Json.accepts content = true ∧ kind = .literal (String.ofList content) := by
  cases found : (readDelimited .literal '\x60' 1 rest).outcome with
  | error misread => simp [readLiteral,found] at read
  | ok content =>
      by_cases valid : Json.accepts content = true
      · simp only [readLiteral,found,if_pos valid,Except.ok.injEq] at read
        exact ⟨content,rfl,valid,read.symm⟩
      · simp [readLiteral,found,valid,Reading.fault] at read

theorem readLiteral_again (read : (readLiteral rest).outcome = .ok kind) :
    ∃ used, Repeats ('\x60' :: rest) used kind := by
  obtain ⟨content,found,valid,rfl⟩ := readLiteral_found read
  refine (readDelimited_settled found).repeats fun text n again => ?_
  change readLiteral text = _
  simp [readLiteral,again,valid]

-- Whatever a text was read as is read from the characters of the token alone.
theorem readToken_again (present : text ≠ []) (read : (readToken text).outcome = .ok kind) :
    ∃ used, Repeats text used kind := by
  obtain ⟨c,rest,rfl⟩ := List.exists_cons_of_ne_nil present
  by_cases marked : c ∈ ['"','\'','\x60']
  · simp only [List.mem_cons,List.not_mem_nil,or_false] at marked
    rcases marked with rfl | rfl | rfl
    · obtain ⟨name,found,rfl⟩ := Reading.map_ok read
      refine (readQuoted_settled found).repeats fun text n again => ?_
      exact congrArg (Reading.map _) again
    · obtain ⟨content,found,rfl⟩ := Reading.map_ok read
      refine (readDelimited_settled found).repeats fun text n again => ?_
      exact congrArg (Reading.map _) again
    · exact readLiteral_again read
  have step := fun others => @readToken_bare c others marked
  have length := congrArg Reading.length (step rest)
  rw [step] at read
  by_cases numeral : (c == '-' || isDigit c) = true
  · simp only [if_pos numeral] at step read length
    obtain ⟨taken,again⟩ := readNumeral_again read
    refine ⟨_,taken,length.trans (readNumeral_length _),fun others apart => ?_⟩
    rcases List.prefix_cons_iff.mp taken with none | ⟨later,whole,_⟩
    · rw [none] at again
      cases again [] .nil
    · have found := again others apart
      rw [whole,List.cons_append] at found ⊢
      rw [step,found]
  simp only [if_neg numeral] at step read length
  by_cases start : isNameStart c = true
  · simp only [if_pos start] at step read length
    obtain ⟨later,whole⟩ := nameAt_start start rest
    cases read
    refine ⟨nameAt (c :: rest),nameAt_front _,length,fun others apart => ?_⟩
    have again := nameAt_again (c :: rest) apart
    rw [whole,List.cons_append] at again ⊢
    rw [step,again]
  simp only [if_neg start] at step read length
  by_cases named : (c == '$' && !(nameAt rest).isEmpty) = true
  · simp only [if_pos named] at read length
    cases read
    refine ⟨c :: nameAt rest,List.cons_prefix_cons.mpr ⟨rfl,nameAt_front _⟩,length,
      fun others apart => ?_⟩
    rw [List.cons_append,step,nameAt_again rest apart,if_pos named]
    rfl
  · simp only [if_neg named] at read length
    obtain ⟨s,taken,size,again⟩ := readSymbol_again read
    refine ⟨_,taken,length.trans size,fun others apart => ?_⟩
    rcases List.prefix_cons_iff.mp taken with none | ⟨later,whole,_⟩
    · rw [none] at again
      cases again [] .nil
    · have found := again others apart
      have plain := Symbol.text_unnamed whole apart
      rw [whole,List.cons_append] at found ⊢
      rw [step,if_neg plain,found]

theorem Written.of_read (present : text ≠ []) (read : readToken text = ⟨.ok kind,text.length⟩) :
    Written text kind := by
  obtain ⟨used,taken,length,written⟩ := readToken_again present (congrArg Reading.outcome read)
  have whole : used = text := taken.eq_of_length (by rw [← length,read])
  exact whole ▸ written

theorem Symbol.written (s : Symbol) : Written s.text.toList (.symbol s) :=
  .of_read (by cases s <;> decide) (by cases s <;> rfl)

end JsonQuery
