import JsonQuery.Proofs.Json.Quoted
import JsonQuery.Proofs.Number.Numeral
import JsonQuery.Proofs.Token.Layout

namespace JsonQuery.Json
open Number

-- The form of a document, whoever reads it. A reader may still refuse one: half of a surrogate
-- pair, a number that is too large, a value that lies too deep.

-- Between the quotes of a string.
inductive Inside : List Char → Prop where
  | nil : Inside []
  | plain (visible : 0x20 ≤ c.toNat) (noQuote : c ≠ '"') (noEscape : c ≠ '\\') (later : Inside rest) :
      Inside (c :: rest)
  | short (listed : (letter,c) ∈ shortEscapes) (later : Inside rest) : Inside ('\\' :: letter :: rest)
  | unit (written : WritesCode digits code) (later : Inside rest) : Inside ('\\' :: 'u' :: (digits ++ rest))

-- A numeral with no zero in front of other digits.
def IsNumber (text : List Char) : Prop :=
  ∃ n : Numeral, n.Formed ∧ (∀ digits, n.whole = '0' :: digits → digits = []) ∧ n.text = text

inductive Part where
  | value | padded | member

def commaed (texts : List (List Char)) : List Char := [','].intercalate texts

-- Blanks stand around a value, around a key and between empty brackets.
inductive Forms : Part → List Char → Prop where
  | word (known : word ∈ ["null","true","false"]) : Forms .value word.toList
  | number (form : IsNumber text) : Forms .value text
  | string (inside : Inside text) : Forms .value ('"' :: (text ++ ['"']))
  | emptyArray (gap : Blank text) : Forms .value ('[' :: (text ++ [']']))
  | array (some : texts ≠ []) (elements : ∀ text ∈ texts, Forms .padded text) :
      Forms .value ('[' :: (commaed texts ++ [']']))
  | emptyObject (gap : Blank text) : Forms .value ('\x7b' :: (text ++ ['\x7d']))
  | object (some : texts ≠ []) (members : ∀ text ∈ texts, Forms .member text) :
      Forms .value ('\x7b' :: (commaed texts ++ ['\x7d']))
  | padded (before : Blank lead) (value : Forms .value text) (behind : Blank last) :
      Forms .padded (lead ++ (text ++ last))
  | member (before : Blank lead) (key : Inside name) (behind : Blank gap) (value : Forms .padded text) :
      Forms .member (lead ++ '"' :: (name ++ '"' :: (gap ++ ':' :: text)))

def IsDocument (text : List Char) : Prop := Forms .padded text

-- What a reader takes from the front of a text has the form.
def Takes (form : List Char → Prop) (text rest : List Char) : Prop := ∃ used, text = used ++ rest ∧ form used

theorem Denotes.inside (denotes : Denotes text content) : Inside text := by
  induction denotes with
  | nil => exact .nil
  | cons first _ ih =>
      cases first with
      | plain visible noQuote noEscape => exact .plain visible noQuote noEscape ih
      | short listed => exact .short listed ih
      | unit written => exact .unit written ih
      | pair _ high low =>
          simp only [List.cons_append,List.append_assoc]
          exact .unit high (.unit low ih)

theorem skipBlank_takes (text : List Char) : Takes Blank text (skipBlank text) :=
  ⟨_,List.takeWhile_append_dropWhile.symm,fun _ => List.mem_takeWhile_imp⟩

theorem readString_takes (read : readString text = some (content,rest)) :
    ∃ name, text = name ++ '"' :: rest ∧ Inside name := by
  obtain ⟨name,split,denotes⟩ := readString_closes read
  exact ⟨name,split,denotes.inside⟩

theorem readNumber_takes {text : List Char} (found : readNumber text = some (n,rest)) :
    Takes IsNumber text rest := by
  have taken : (Numeral.scan text).whole ≠ [] →
      (∀ digits, (Numeral.scan text).whole = '0' :: digits → digits = []) →
      rest = text.drop (Numeral.scan text).length → Takes IsNumber text rest := by
    rintro digits leading rfl
    obtain ⟨tail,split⟩ := Numeral.scan_front digits
    refine ⟨_,?_,_,Numeral.scan_formed digits,leading,rfl⟩
    rw [← Numeral.text_length]
    conv => rhs; arg 2; arg 2; rw [← split]
    rw [List.drop_left,split]
  unfold readNumber at found
  dsimp only at found
  split at found
  · cases found
  · cases found
  · rename_i present leading
    have leading : ∀ digits, (Numeral.scan text).whole = '0' :: digits → digits = [] := by
      intro digits whole
      cases digits with
      | nil => rfl
      | cons d digits => exact absurd whole (leading d digits)
    split at found
    · cases found
      exact taken present leading rfl
    · obtain ⟨x,_,made⟩ := Option.map_eq_some_iff.mp found
      cases made
      exact taken present leading rfl

theorem afterWord_takes {word : String} (known : word ∈ ["null","true","false"])
    (found : (afterWord word.toList text).map (v,·) = some (w,rest)) : Takes (Forms .value) text rest := by
  obtain ⟨tail,read,made⟩ := Option.map_eq_some_iff.mp found
  cases made
  unfold afterWord at read
  split at read
  · rename_i front
    obtain ⟨tail,rfl⟩ := List.isPrefixOf_iff_prefix.mp front
    cases read
    rw [List.drop_left]
    exact ⟨_,rfl,.word known⟩
  · cases read

theorem readScalar_takes {text : List Char} (found : readScalar text = some (v,rest)) :
    Takes (Forms .value) text rest := by
  unfold readScalar at found
  split at found
  · obtain ⟨⟨content,tail⟩,read,made⟩ := Option.bind_eq_some_iff.mp found
    cases made
    obtain ⟨name,rfl,inside⟩ := readString_takes read
    exact ⟨_,by simp,.string inside⟩
  · exact afterWord_takes (by simp) found
  · exact afterWord_takes (by simp) found
  · exact afterWord_takes (by simp) found
  · obtain ⟨⟨n,tail⟩,read,made⟩ := Option.bind_eq_some_iff.mp found
    cases made
    obtain ⟨used,split,form⟩ := readNumber_takes read
    exact ⟨used,split,.number form⟩

-- The parts that a loop has taken, with what stands behind each, up to the closing character.
def TakesSome (part : Part) (closing : Char) (text rest : List Char) : Prop :=
  ∃ texts, texts ≠ [] ∧ (∀ used ∈ texts, Forms part used) ∧ text = commaed texts ++ closing :: rest

section
variable {part : Part} {closing : Char} {used rest : List Char}

theorem TakesSome.last (form : Forms part used) : TakesSome part closing (used ++ closing :: rest) rest :=
  ⟨[used],by simp,by simpa using form,by simp [commaed]⟩

theorem TakesSome.more (form : Forms part used) (later : TakesSome part closing text rest) :
    TakesSome part closing (used ++ ',' :: text) rest := by
  obtain ⟨texts,some,forms,rfl⟩ := later
  refine ⟨used :: texts,by simp,List.forall_mem_cons.mpr ⟨form,forms⟩,?_⟩
  simp [commaed,List.intercalate_cons_of_ne_nil some]

end

section
variable {value : List Char → Option (Json × List Char)}
  (takes : ∀ text v rest, value text = some (v,rest) → Takes (Forms .value) text rest)
include takes

theorem padded_takes (found : value (skipBlank text) = some (v,rest)) :
    Takes (Forms .padded) text (skipBlank rest) := by
  obtain ⟨lead,split,before⟩ := skipBlank_takes text
  obtain ⟨used,same,form⟩ := takes _ _ _ found
  obtain ⟨last,ends,behind⟩ := skipBlank_takes rest
  refine ⟨lead ++ (used ++ last),?_,.padded before form behind⟩
  rw [List.append_assoc,List.append_assoc,← ends,← same,← split]

theorem readElements_takes (found : readElements value n text = some (vs,rest)) :
    TakesSome .padded ']' text rest := by
  induction n generalizing text vs with
  | zero => cases found
  | succ n ih =>
      unfold readElements at found
      obtain ⟨⟨element,behind⟩,first,found⟩ := Option.bind_eq_some_iff.mp found
      obtain ⟨used,taken,form⟩ := padded_takes takes first
      rw [taken]
      dsimp only at found
      split at found
      · rename_i comma
        obtain ⟨⟨more,tail⟩,later,made⟩ := Option.bind_eq_some_iff.mp found
        cases made
        rw [comma]
        exact .more form (ih later)
      · rename_i bracket
        cases found
        rw [bracket]
        exact .last form
      · cases found

theorem readEntries_takes (found : readEntries value n text = some (es,rest)) :
    TakesSome .member '\x7d' text rest := by
  induction n generalizing text es with
  | zero => cases found
  | succ n ih =>
      unfold readEntries at found
      obtain ⟨lead,split,before⟩ := skipBlank_takes text
      split at found
      · rename_i quote
        obtain ⟨⟨key,behind⟩,named,found⟩ := Option.bind_eq_some_iff.mp found
        obtain ⟨name,inside,key⟩ := readString_takes named
        obtain ⟨gap,apart,between⟩ := skipBlank_takes behind
        dsimp only at found
        split at found
        · rename_i colon
          obtain ⟨⟨entry,behind⟩,first,found⟩ := Option.bind_eq_some_iff.mp found
          obtain ⟨used,taken,form⟩ := padded_takes takes first
          have member := Forms.member before key between form
          have whole : text = lead ++ '"' :: (name ++ '"' :: (gap ++ ':' :: used)) ++ skipBlank behind := by
            rw [split,quote,inside,apart,colon,taken]
            simp
          rw [whole]
          dsimp only at found
          split at found
          · rename_i comma
            obtain ⟨⟨more,tail⟩,later,made⟩ := Option.bind_eq_some_iff.mp found
            cases made
            rw [comma]
            exact .more member (ih later)
          · rename_i brace
            cases found
            rw [brace]
            exact .last member
          · cases found
        · cases found
      · cases found

end

theorem readValue_takes (depth : Nat) (text : List Char) (v : Json) (rest : List Char)
    (found : readValue depth text = some (v,rest)) : Takes (Forms .value) text rest := by
  induction depth generalizing text v rest with
  | zero => exact readScalar_takes found
  | succ depth ih =>
      unfold readValue at found
      split at found
      · rename_i text
        obtain ⟨lead,split,gap⟩ := skipBlank_takes text
        split at found
        · rename_i bracket
          cases found
          rw [bracket] at split
          exact ⟨'[' :: (lead ++ [']']),by simp [split],.emptyArray gap⟩
        · obtain ⟨⟨elements,tail⟩,read,made⟩ := Option.bind_eq_some_iff.mp found
          cases made
          obtain ⟨texts,some,forms,rfl⟩ := readElements_takes ih read
          exact ⟨_,by simp,.array some forms⟩
      · rename_i text
        obtain ⟨lead,split,gap⟩ := skipBlank_takes text
        split at found
        · rename_i brace
          cases found
          rw [brace] at split
          exact ⟨'\x7b' :: (lead ++ ['\x7d']),by simp [split],.emptyObject gap⟩
        · obtain ⟨⟨entries,tail⟩,read,made⟩ := Option.bind_eq_some_iff.mp found
          cases made
          obtain ⟨texts,some,forms,rfl⟩ := readEntries_takes ih read
          exact ⟨_,by simp,.object some forms⟩
      · exact readScalar_takes found

-- The reader accepts nothing but documents.
theorem accepts_document {text : List Char} (valid : accepts text = true) : IsDocument text := by
  obtain ⟨v,found⟩ := Option.isSome_iff_exists.mp valid
  obtain ⟨⟨value,rest⟩,read,ended⟩ := Option.bind_eq_some_iff.mp found
  obtain ⟨used,same,form⟩ := padded_takes (readValue_takes depthLimit) read
  dsimp only at ended
  split at ended
  · rename_i none
    rw [none,List.append_nil] at same
    exact same ▸ form
  · cases ended

end JsonQuery.Json
