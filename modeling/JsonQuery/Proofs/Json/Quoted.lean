import JsonQuery.Json.Reader
import JsonQuery.Json.Writer
import JsonQuery.Proofs.Token.Written

namespace JsonQuery

-- The four digits a code is written with, the letters among them in lower case.
def codeDigits (code : Nat) : List Char :=
  [code / 0x1000,code / 0x100 % 0x10,code / 0x10 % 0x10,code % 0x10].map Nat.digitChar

-- The same digits in either case.
structure WritesCode (digits : List Char) (code : Nat) : Prop where
  small : code < 0x10000
  lower : digits.map Char.toLower = codeDigits code

theorem hexDigit_ascii : ∀ n < 0x80, ∀ v < 0x10,
    isHexDigit (Char.ofNat n) = true ∧ hexDigitValue (Char.ofNat n) = v ↔
      (Char.ofNat n).toLower = v.digitChar := by
  decide +kernel

theorem isHexDigit_ascii (digit : isHexDigit c = true) : c.toNat < 0x80 ∧ hexDigitValue c < 0x10 := by
  simp only [isHexDigit,Bool.or_eq_true,Bool.and_eq_true,decide_eq_true_eq,Char.le_def,
    UInt32.le_iff_toNat_le,Char.toNat_val] at digit
  simp only [hexDigitValue,Char.le_def,UInt32.le_iff_toNat_le,Char.toNat_val]
  have zero : '0'.toNat = 48 := rfl
  have nine : '9'.toNat = 57 := rfl
  have a : 'a'.toNat = 97 := rfl
  have f : 'f'.toNat = 102 := rfl
  have A : 'A'.toNat = 65 := rfl
  have F : 'F'.toNat = 70 := rfl
  refine ⟨by omega,?_⟩
  split
  · omega
  · split <;> omega

theorem toLower_ascii {c : Char} (small : c.toLower.toNat < 0x80) : c.toNat < 0x80 := by
  unfold Char.toLower at small
  split at small
  · rename_i upper
    have last := UInt32.le_iff_toNat_le.mp upper.2
    have Z : 'Z'.val.toNat = 90 := rfl
    rw [Char.toNat_val,Z] at last
    omega
  · exact small

theorem hexDigit_iff (c : Char) (v : Nat) : isHexDigit c = true ∧ hexDigitValue c = v ↔
    v < 0x10 ∧ c.toLower = v.digitChar := by
  constructor
  · rintro ⟨digit,rfl⟩
    obtain ⟨ascii,small⟩ := isHexDigit_ascii digit
    have same := hexDigit_ascii c.toNat ascii _ small
    rw [Char.ofNat_toNat] at same
    exact ⟨small,same.mp ⟨digit,rfl⟩⟩
  · rintro ⟨small,lower⟩
    have digits : ∀ v < 0x10, v.digitChar.toNat < 0x80 := by decide
    have ascii : c.toNat < 0x80 := toLower_ascii (lower ▸ digits v small)
    have same := hexDigit_ascii c.toNat ascii v small
    rw [Char.ofNat_toNat] at same
    exact same.mpr lower

theorem hexValue?_iff : hexValue? digits = some code ↔ WritesCode digits code := by
  constructor
  · intro read
    unfold hexValue? at read
    split at read
    · rename_i four
      match digits,four.1 with
      | [a,b,c,d],_ =>
          have all := four.2
          simp only [List.all_cons,List.all_nil,Bool.and_true,Bool.and_eq_true] at all
          obtain ⟨first,second,third,fourth⟩ := all
          obtain ⟨a_small,a_lower⟩ := (hexDigit_iff a _).mp ⟨first,rfl⟩
          obtain ⟨b_small,b_lower⟩ := (hexDigit_iff b _).mp ⟨second,rfl⟩
          obtain ⟨c_small,c_lower⟩ := (hexDigit_iff c _).mp ⟨third,rfl⟩
          obtain ⟨d_small,d_lower⟩ := (hexDigit_iff d _).mp ⟨fourth,rfl⟩
          simp only [List.foldl_cons,List.foldl_nil,Option.some.injEq] at read
          refine ⟨by omega,?_⟩
          simp only [codeDigits,List.map_cons,List.map_nil,a_lower,b_lower,c_lower,d_lower,
            List.cons.injEq,and_true]
          refine ⟨?_,?_,?_,?_⟩ <;> congr 1 <;> omega
    · cases read
  · rintro ⟨small,lower⟩
    have four : digits.length = 4 := by simpa [codeDigits] using congrArg List.length lower
    match digits,four with
    | [a,b,c,d],_ =>
        simp only [codeDigits,List.map_cons,List.map_nil,List.cons.injEq,and_true] at lower
        obtain ⟨a_hex,a_value⟩ := (hexDigit_iff a _).mpr ⟨by omega,lower.1⟩
        obtain ⟨b_hex,b_value⟩ := (hexDigit_iff b _).mpr ⟨by omega,lower.2.1⟩
        obtain ⟨c_hex,c_value⟩ := (hexDigit_iff c _).mpr ⟨by omega,lower.2.2.1⟩
        obtain ⟨d_hex,d_value⟩ := (hexDigit_iff d _).mpr ⟨by omega,lower.2.2.2⟩
        simp only [hexValue?,List.length_cons,List.length_nil,List.all_cons,List.all_nil,a_hex,b_hex,
          c_hex,d_hex,List.foldl_cons,List.foldl_nil,a_value,b_value,c_value,d_value]
        simp
        omega

theorem WritesCode.four (written : WritesCode digits code) :
    ∃ a b c d, digits = [a,b,c,d] ∧ hexValue? [a,b,c,d] = some code := by
  have four : digits.length = 4 := by simpa [codeDigits] using congrArg List.length written.lower
  match digits,four with
  | [a,b,c,d],_ => exact ⟨a,b,c,d,rfl,hexValue?_iff.mpr written⟩

namespace Json

def shortEscapes : List (Char × Char) :=
  [('"','"'),('\\','\\'),('/','/'),('b','\x08'),('f','\x0c'),('n','\n'),('r','\r'),('t','\t')]

theorem shortEscape?_iff : shortEscape? letter = some c ↔ (letter,c) ∈ shortEscapes := by
  constructor
  · intro found
    unfold shortEscape? at found
    split at found <;> cases found <;> decide
  · intro listed
    simp only [shortEscapes,List.mem_cons,Prod.mk.injEq,List.not_mem_nil,or_false] at listed
    rcases listed with ⟨rfl,rfl⟩ | ⟨rfl,rfl⟩ | ⟨rfl,rfl⟩ | ⟨rfl,rfl⟩ | ⟨rfl,rfl⟩ | ⟨rfl,rfl⟩ |
      ⟨rfl,rfl⟩ | ⟨rfl,rfl⟩ <;> rfl

-- The forms of one character between double quotes. A character beyond the first plane is
-- written as its two surrogates; no other text stands for a surrogate.
inductive Spells : List Char → Char → Prop where
  | plain (visible : 0x20 ≤ c.toNat) (noQuote : c ≠ '"') (noEscape : c ≠ '\\') : Spells [c] c
  | short (listed : (letter,c) ∈ shortEscapes) : Spells ['\\',letter] c
  | unit (written : WritesCode digits c.toNat) : Spells ('\\' :: 'u' :: digits) c
  | pair (beyond : 0x10000 ≤ c.toNat) (high : WritesCode first (0xD800 + (c.toNat - 0x10000) / 0x400))
      (low : WritesCode second (0xDC00 + (c.toNat - 0x10000) % 0x400)) :
      Spells ('\\' :: 'u' :: (first ++ '\\' :: 'u' :: second)) c

inductive Denotes : List Char → List Char → Prop where
  | nil : Denotes [] []
  | cons (first : Spells text c) (later : Denotes rest content) : Denotes (text ++ rest) (c :: content)

-- The text is a string of a document, and the string is this one.
def IsQuoted (text content : String) : Prop :=
  ∃ inside, text.toList = '"' :: (inside ++ ['"']) ∧ Denotes inside content.toList

theorem toNat_ofNat_valid (valid : n.isValidChar) : (Char.ofNat n).toNat = n := by
  rw [Char.ofNat,dif_pos valid]
  rfl

theorem Spells.of_unit (read : hexValue? digits = some code) (noHigh : isHighSurrogate code = false)
    (noLow : isLowSurrogate code = false) : Spells ('\\' :: 'u' :: digits) (Char.ofNat code) := by
  have written := hexValue?_iff.mp read
  have small := written.small
  simp only [isHighSurrogate,isLowSurrogate,Bool.and_eq_false_iff,decide_eq_false_iff_not] at noHigh noLow
  have valid : code.isValidChar := by unfold Nat.isValidChar; omega
  exact .unit ((toNat_ofNat_valid valid).symm ▸ written)

theorem Spells.of_pair (first : hexValue? digits = some high) (opens : isHighSurrogate high = true)
    (second : hexValue? others = some low) (closes : isLowSurrogate low = true) :
    Spells ('\\' :: 'u' :: (digits ++ '\\' :: 'u' :: others)) (joinSurrogates high low) := by
  simp only [isHighSurrogate,isLowSurrogate,Bool.and_eq_true,decide_eq_true_eq] at opens closes
  have valid : (0x10000 + (high - 0xD800) * 0x400 + (low - 0xDC00)).isValidChar := by
    unfold Nat.isValidChar; omega
  have same : (joinSurrogates high low).toNat = 0x10000 + (high - 0xD800) * 0x400 + (low - 0xDC00) :=
    toNat_ofNat_valid valid
  refine .pair (by omega) ?_ ?_
  · convert hexValue?_iff.mp first using 1
    omega
  · convert hexValue?_iff.mp second using 1
    omega

-- A surrogate is no character.
theorem toNat_plain (c : Char) : isHighSurrogate c.toNat = false ∧ isLowSurrogate c.toNat = false := by
  have valid : c.toNat.isValidChar := c.valid
  simp only [Nat.isValidChar] at valid
  simp only [isHighSurrogate,isLowSurrogate,Bool.and_eq_false_iff,decide_eq_false_iff_not]
  omega

theorem joinSurrogates_split {c : Char} (beyond : 0x10000 ≤ c.toNat) :
    let high := 0xD800 + (c.toNat - 0x10000) / 0x400
    let low := 0xDC00 + (c.toNat - 0x10000) % 0x400
    isHighSurrogate high = true ∧ isLowSurrogate low = true ∧ joinSurrogates high low = c := by
  intro high low
  have valid : c.toNat.isValidChar := c.valid
  simp only [Nat.isValidChar] at valid
  refine ⟨?_,?_,?_⟩
  · simp only [isHighSurrogate,Bool.and_eq_true,decide_eq_true_eq]
    omega
  · simp only [isLowSurrogate,Bool.and_eq_true,decide_eq_true_eq]
    omega
  · have whole : 0x10000 + (high - 0xD800) * 0x400 + (low - 0xDC00) = c.toNat := by omega
    rw [joinSurrogates,whole,Char.ofNat_toNat]

section
variable (later : readString rest = some (content,tail))
include later

theorem readString_plain (visible : 0x20 ≤ c.toNat) (noQuote : c ≠ '"') (noEscape : c ≠ '\\') :
    readString (c :: rest) = some (c :: content,tail) := by
  rw [readString.eq_def]
  simp [noEscape,Nat.not_lt.mpr visible,later]

theorem readString_short (found : shortEscape? letter = some c) :
    readString ('\\' :: letter :: rest) = some (c :: content,tail) := by
  have other : letter ≠ 'u' := by rintro rfl; cases found
  rw [readString.eq_def]
  simp [found,other,later]

theorem readString_unit (value : hexValue? [a,b,c,d] = some code)
    (noHigh : isHighSurrogate code = false) (noLow : isLowSurrogate code = false) :
    readString ('\\' :: 'u' :: a :: b :: c :: d :: rest) = some (Char.ofNat code :: content,tail) := by
  rw [readString.eq_def]
  simp [value,noHigh,noLow,later]

theorem readString_pair (first : hexValue? [a,b,c,d] = some high) (opens : isHighSurrogate high = true)
    (second : hexValue? [e,f,g,h] = some low) (closes : isLowSurrogate low = true) :
    readString ('\\' :: 'u' :: a :: b :: c :: d :: '\\' :: 'u' :: e :: f :: g :: h :: rest) =
      some (joinSurrogates high low :: content,tail) := by
  rw [readString.eq_def]
  simp [first,second,opens,closes,later]

theorem Spells.readString (spelled : Spells text char) :
    readString (text ++ rest) = some (char :: content,tail) := by
  cases spelled with
  | plain visible noQuote noEscape => exact readString_plain later visible noQuote noEscape
  | short listed => exact readString_short later (shortEscape?_iff.mpr listed)
  | unit written =>
      obtain ⟨a,b,c,d,rfl,value⟩ := written.four
      obtain ⟨noHigh,noLow⟩ := toNat_plain char
      simpa using readString_unit later value noHigh noLow
  | pair beyond high low =>
      obtain ⟨a,b,c,d,rfl,first⟩ := high.four
      obtain ⟨e,f,g,h,rfl,second⟩ := low.four
      obtain ⟨opens,closes,joined⟩ := joinSurrogates_split beyond
      simpa [joined] using readString_pair later first opens second closes

end

theorem Spells.readQuoted (spelled : Spells text char) (seen : Nat) (rest : List Char) :
    readQuoted seen (text ++ rest) = (readQuoted (seen + text.length) rest).map (char :: ·) := by
  cases spelled with
  | plain visible noQuote noEscape => exact readQuoted_plain noQuote noEscape
  | short listed => exact readQuoted_short (shortEscape?_iff.mpr listed)
  | unit written =>
      obtain ⟨a,b,c,d,rfl,value⟩ := written.four
      obtain ⟨noHigh,noLow⟩ := toNat_plain char
      simpa using readQuoted_unicode value noHigh noLow
  | pair beyond high low =>
      obtain ⟨a,b,c,d,rfl,first⟩ := high.four
      obtain ⟨e,f,g,h,rfl,second⟩ := low.four
      obtain ⟨opens,closes,joined⟩ := joinSurrogates_split beyond
      simpa [joined] using readQuoted_pair first opens second closes

section
variable {inside content : List Char}

theorem Denotes.readString (denotes : Denotes inside content) (rest : List Char) :
    readString (inside ++ '"' :: rest) = some (content,rest) := by
  induction denotes with
  | nil => rw [List.nil_append,JsonQuery.Json.readString.eq_def]; rfl
  | cons first later ih => rw [List.append_assoc]; exact first.readString ih

theorem Denotes.readQuoted (denotes : Denotes inside content) (seen : Nat) (rest : List Char) :
    readQuoted seen (inside ++ '"' :: rest) = ⟨.ok content,seen + inside.length + 1⟩ := by
  induction denotes generalizing seen with
  | nil => rw [List.nil_append,JsonQuery.readQuoted.eq_def]; rfl
  | cons first later ih =>
      rw [List.append_assoc,first.readQuoted,ih,List.length_append]
      simp [Reading.map,Except.map,Nat.add_assoc]

end

-- A text that goes on to its closing quote.
def Closes (text tail content : List Char) : Prop :=
  ∃ inside, text = inside ++ '"' :: tail ∧ Denotes inside content

theorem Spells.closes (spelled : Spells used c) (later : Closes rest tail content) :
    Closes (used ++ rest) tail (c :: content) := by
  obtain ⟨inside,rfl,denotes⟩ := later
  exact ⟨used ++ inside,(List.append_assoc ..).symm,.cons spelled denotes⟩

theorem readString_closes (read : readString text = some (content,tail)) : Closes text tail content := by
  fun_induction readString text generalizing content with
  | case1 | case5 => cases read
  | case2 => cases read; exact ⟨[],rfl,.nil⟩
  | case3 a b c d rest paired single =>
      obtain ⟨code,value,read⟩ := Option.bind_eq_some_iff.mp read
      split at read
      · rename_i opens
        split at read
        · obtain ⟨low,second,read⟩ := Option.bind_eq_some_iff.mp read
          split at read
          · rename_i closes
            obtain ⟨⟨more,behind⟩,later,made⟩ := Option.bind_eq_some_iff.mp read
            cases made
            exact (Spells.of_pair value opens second closes).closes (paired later)
          · cases read
        · cases read
      · rename_i noHigh
        split at read
        · cases read
        · rename_i noLow
          obtain ⟨⟨more,behind⟩,later,made⟩ := Option.bind_eq_some_iff.mp read
          cases made
          exact (Spells.of_unit value (by simpa using noHigh) (by simpa using noLow)).closes (single later)
  | case4 letter rest _ ih =>
      obtain ⟨decoded,found,read⟩ := Option.bind_eq_some_iff.mp read
      obtain ⟨⟨more,behind⟩,later,made⟩ := Option.bind_eq_some_iff.mp read
      cases made
      exact (Spells.short (shortEscape?_iff.mp found)).closes (ih later)
  | case6 c rest noQuote _ _ plain ih =>
      obtain ⟨⟨more,behind⟩,later,made⟩ := Option.bind_eq_some_iff.mp read
      cases made
      rw [not_or,Nat.not_lt] at plain
      exact (Spells.plain plain.1 noQuote plain.2).closes (ih later)

-- The reader of documents takes a string to its end, and no other text.
theorem readString_iff : readString text = some (content,tail) ↔ Closes text tail content := by
  refine ⟨readString_closes,?_⟩
  rintro ⟨inside,rfl,denotes⟩
  exact denotes.readString tail

-- The scanner lets control characters through, and takes nothing else that is not a string.
structure Scanned (seen : Nat) (text content : List Char) (inside tail : List Char) : Prop where
  whole : text = inside ++ '"' :: tail
  length : (readQuoted seen text).length = seen + inside.length + 1
  denotes : (∀ c ∈ inside, 0x20 ≤ c.toNat) → Denotes inside content

theorem Scanned.front (used : List Char) (later : Scanned (seen + used.length) rest content inside tail)
    (step : readQuoted seen (used ++ rest) = (readQuoted (seen + used.length) rest).map (c :: ·))
    (spelled : (∀ c ∈ used, 0x20 ≤ c.toNat) → Spells used c) :
    Scanned seen (used ++ rest) (c :: content) (used ++ inside) tail := by
  refine ⟨?_,?_,fun visible => ?_⟩
  · rw [later.whole,List.append_assoc]
  · rw [step,Reading.map_length,later.length,List.length_append]
    omega
  · obtain ⟨first,others⟩ := List.forall_mem_append.mp visible
    exact .cons (spelled first) (later.denotes others)

theorem readQuoted_scanned (read : (readQuoted seen text).outcome = .ok content) :
    ∃ inside tail, Scanned seen text content inside tail := by
  fun_induction readQuoted seen text generalizing content with
  | case2 seen rest =>
      cases read
      exact ⟨[],rest,rfl,by rw [JsonQuery.readQuoted.eq_def]; rfl,fun _ => .nil⟩
  | case5 seen a b c d high first opens e f g h tail low second closes ih =>
      obtain ⟨content,inner,rfl⟩ := Reading.map_ok read
      obtain ⟨inside,tail,later⟩ := ih inner
      exact ⟨_,tail,.front ['\\','u',a,b,c,d,'\\','u',e,f,g,h] later
        (readQuoted_pair first opens second closes) fun _ => .of_pair first opens second closes⟩
  | case10 seen a b c d tail code value noHigh noLow ih =>
      obtain ⟨content,inner,rfl⟩ := Reading.map_ok read
      obtain ⟨inside,tail,later⟩ := ih inner
      have plain := And.intro (Bool.eq_false_iff.mpr noHigh) (Bool.eq_false_iff.mpr noLow)
      exact ⟨_,tail,.front ['\\','u',a,b,c,d] later (readQuoted_unicode value plain.1 plain.2)
        fun _ => .of_unit value plain.1 plain.2⟩
  | case12 seen letter rest _ decoded found ih =>
      obtain ⟨content,inner,rfl⟩ := Reading.map_ok read
      obtain ⟨inside,tail,later⟩ := ih inner
      exact ⟨_,tail,.front ['\\',letter] later (readQuoted_short found)
        fun _ => .short (shortEscape?_iff.mp found)⟩
  | case15 seen c rest noQuote _ _ noEscape ih =>
      obtain ⟨content,inner,rfl⟩ := Reading.map_ok read
      obtain ⟨inside,tail,later⟩ := ih inner
      exact ⟨_,tail,.front [c] later (readQuoted_plain noQuote noEscape)
        fun visible => .plain (visible c List.mem_cons_self) noQuote noEscape⟩
  | _ => cases read

theorem hexValue?_control : ∀ n < 0x20,
    hexValue? ((if n < 0x10 then ['0','0','0'] else ['0','0']) ++ Nat.toDigits 16 n) = some n := by
  decide

-- What the writer makes of a character is one of its forms.
theorem escapeChar_spells (c : Char) : Spells (escapeChar c).toList c := by
  unfold escapeChar
  repeat' split
  iterate 7
    subst c
    exact .short (by decide)
  · rename_i small
    have value := hexValue?_control c.toNat (by omega)
    rw [if_pos small] at value
    simpa [hexText] using Spells.unit (hexValue?_iff.mp value)
  · rename_i large control
    have value := hexValue?_control c.toNat control
    rw [if_neg large] at value
    simpa [hexText] using Spells.unit (hexValue?_iff.mp value)
  · rename_i noQuote noEscape _ _ _ _ _ _ visible
    simpa using Spells.plain (Nat.not_lt.mp visible) noQuote noEscape

theorem escaped_denotes (content : List Char) :
    Denotes (content.flatMap fun c => (escapeChar c).toList) content := by
  induction content with
  | nil => exact .nil
  | cons c content ih => exact .cons (escapeChar_spells c) ih

theorem quote_isQuoted (content : String) : IsQuoted (quote content) content :=
  ⟨_,by simp [quote,List.flatMap_map],escaped_denotes content.toList⟩

end Json
end JsonQuery
