import Mathlib.Data.List.TakeWhile
import JsonQuery.Number.Numeral

namespace JsonQuery.Number

def AreDigits (text : List Char) : Prop := text ≠ [] ∧ ∀ c ∈ text, c.isDigit = true

theorem isDigit_eq (c : Char) : isDigit c = c.isDigit := by
  simp [isDigit,Char.isDigit,Char.le_def]

theorem AreDigits.takeWhile (digits : AreDigits text) (rest : List Char) :
    (text ++ rest).takeWhile isDigit = text ++ rest.takeWhile isDigit :=
  List.takeWhile_append_of_pos fun c inside => (isDigit_eq c).trans (digits.2 c inside)

theorem AreDigits.dropWhile (digits : AreDigits text) (rest : List Char) :
    (text ++ rest).dropWhile isDigit = rest.dropWhile isDigit :=
  List.dropWhile_append_of_pos fun c inside => (isDigit_eq c).trans (digits.2 c inside)

theorem AreDigits.of_takeWhile {text : List Char} (present : text.takeWhile isDigit ≠ []) :
    AreDigits (text.takeWhile isDigit) :=
  ⟨present,fun c inside => (isDigit_eq c).symm.trans (List.mem_takeWhile_imp inside)⟩

theorem AreDigits.head (digits : AreDigits text) (rest : List Char) (mark : c.isDigit = false) :
    (text ++ rest).head? ≠ some c := by
  obtain ⟨d,later,rfl⟩ := List.exists_cons_of_ne_nil digits.1
  intro same
  cases same
  exact absurd (digits.2 c List.mem_cons_self) (Bool.eq_false_iff.mp mark)

theorem takeWhile_again {p : α → Bool} (text : List α) (stops : next.takeWhile p = []) :
    (text.takeWhile p ++ next).takeWhile p = text.takeWhile p := by
  rw [List.takeWhile_append_of_pos fun _ => List.mem_takeWhile_imp,stops,List.append_nil]

theorem dropWhile_stopped {p : α → Bool} {text : List α} (stops : text.takeWhile p = []) :
    text.dropWhile p = text :=
  List.dropWhile_eq_self_iff.mpr (List.takeWhile_eq_nil_iff.mp stops)

theorem drop_takeWhile (p : α → Bool) (text : List α) :
    text.drop (text.takeWhile p).length = text.dropWhile p := by
  conv => lhs; arg 2; rw [← List.takeWhile_append_dropWhile (p := p) (l := text)]
  exact List.drop_left

-- Behind a numeral: nothing that would make it longer.
structure EndsNumeral (rest : List Char) : Prop where
  digit : rest.takeWhile isDigit = []
  mark : rest.head? ∉ [some '.',some 'e',some 'E']

theorem signPart_cases (text : List Char) :
    signPart text = [] ∨ ∃ rest, text = '-' :: rest ∧ signPart text = ['-'] := by
  unfold signPart
  split
  · rename_i rest
    exact .inr ⟨rest,rfl,rfl⟩
  · exact .inl rfl

theorem signPart_front (text : List Char) : signPart text <+: text := by
  rcases signPart_cases text with none | ⟨rest,rfl,found⟩
  · rw [none]
    exact List.nil_prefix
  · exact ⟨rest,rfl⟩

theorem signPart_again (text : List Char) (unsigned : next.head? ≠ some '-') :
    signPart (signPart text ++ next) = signPart text := by
  rcases signPart_cases text with none | ⟨rest,rfl,found⟩
  · rw [none,List.nil_append]
    rcases signPart_cases next with none | ⟨later,rfl,_⟩
    · exact none
    · exact absurd rfl unsigned
  · rfl

theorem fractionPart_point (digits : rest.takeWhile isDigit ≠ []) :
    fractionPart ('.' :: rest) = '.' :: rest.takeWhile isDigit := by
  unfold fractionPart
  split
  · rename_i same
    cases same
    split
    · contradiction
    · rfl
  · rename_i other
    exact absurd rfl (other rest)

-- Nothing, or the point and the digits behind it.
theorem fractionPart_cases (text : List Char) : fractionPart text = [] ∨
    ∃ rest, text = '.' :: rest ∧ rest.takeWhile isDigit ≠ [] ∧
      fractionPart text = '.' :: rest.takeWhile isDigit := by
  unfold fractionPart
  split
  · rename_i rest
    split
    · exact .inl rfl
    · rename_i digits
      exact .inr ⟨rest,rfl,digits,rfl⟩
  · exact .inl rfl

theorem fractionPart_front (text : List Char) : fractionPart text <+: text := by
  rcases fractionPart_cases text with none | ⟨rest,rfl,_,found⟩
  · rw [none]
    exact List.nil_prefix
  · rw [found]
    exact List.cons_prefix_cons.mpr ⟨rfl,List.takeWhile_prefix _⟩

theorem powerSign_cases (text : List Char) : powerSign text = [] ∨
    ∃ c rest, text = c :: rest ∧ (c = '+' ∨ c = '-') ∧ powerSign text = [c] := by
  unfold powerSign
  split
  · exact .inr ⟨'+',_,rfl,.inl rfl,rfl⟩
  · exact .inr ⟨'-',_,rfl,.inr rfl,rfl⟩
  · exact .inl rfl

theorem powerSign_front (text : List Char) : powerSign text <+: text := by
  rcases powerSign_cases text with none | ⟨c,rest,rfl,_,found⟩
  · rw [none]
    exact List.nil_prefix
  · rw [found]
    exact ⟨rest,rfl⟩

theorem powerSign_again (text : List Char) (unsigned : next.head? ∉ [some '+',some '-']) :
    powerSign (powerSign text ++ next) = powerSign text := by
  rcases powerSign_cases text with none | ⟨c,rest,rfl,sign,found⟩
  · rw [none,List.nil_append]
    rcases powerSign_cases next with none | ⟨c,later,rfl,rfl | rfl,_⟩
    · exact none
    · simp at unsigned
    · simp at unsigned
  · rcases sign with rfl | rfl <;> rfl

theorem powerPart_letter (power : letter = 'e' ∨ letter = 'E')
    (digits : (rest.drop (powerSign rest).length).takeWhile isDigit ≠ []) :
    powerPart (letter :: rest) =
      letter :: powerSign rest ++ (rest.drop (powerSign rest).length).takeWhile isDigit := by
  simp only [powerPart,if_pos power]

theorem powerPart_cases (text : List Char) : powerPart text = [] ∨
    ∃ letter rest, text = letter :: rest ∧ (letter = 'e' ∨ letter = 'E') ∧
      (rest.drop (powerSign rest).length).takeWhile isDigit ≠ [] ∧ powerPart text =
        letter :: powerSign rest ++ (rest.drop (powerSign rest).length).takeWhile isDigit := by
  cases text with
  | nil => exact .inl rfl
  | cons letter rest =>
      by_cases power : letter = 'e' ∨ letter = 'E'
      · by_cases digits : (rest.drop (powerSign rest).length).takeWhile isDigit = []
        · exact .inl (by simp [powerPart,digits])
        · exact .inr ⟨letter,rest,rfl,power,digits,powerPart_letter power digits⟩
      · exact .inl (by simp [powerPart,power])

theorem powerPart_front (text : List Char) : powerPart text <+: text := by
  rcases powerPart_cases text with none | ⟨letter,rest,rfl,_,_,found⟩
  · rw [none]
    exact List.nil_prefix
  · rw [found,List.cons_append,List.cons_prefix_cons]
    have whole := List.prefix_iff_eq_append.mp (powerSign_front rest)
    refine ⟨rfl,?_⟩
    conv => rhs; rw [← whole]
    exact (List.prefix_append_right_inj _).mpr (List.takeWhile_prefix _)

theorem EndsNumeral.pointless (ends : EndsNumeral rest) : fractionPart rest = [] := by
  rcases fractionPart_cases rest with none | ⟨later,rfl,_⟩
  · exact none
  · simpa using ends.mark

theorem EndsNumeral.powerless (ends : EndsNumeral rest) : powerPart rest = [] := by
  rcases powerPart_cases rest with none | ⟨letter,later,rfl,rfl | rfl,_⟩
  · exact none
  · simpa using ends.mark
  · simpa using ends.mark

namespace Numeral

-- The form of a numeral: `[-] digits [. digits] [(e|E) [+|-] digits]`.
structure Formed (n : Numeral) : Prop where
  sign : n.sign = [] ∨ n.sign = ['-']
  whole : AreDigits n.whole
  fraction : n.fraction = [] ∨ ∃ digits, n.fraction = '.' :: digits ∧ AreDigits digits
  power : n.power = [] ∨ ∃ letter sign digits, n.power = letter :: (sign ++ digits) ∧
    letter ∈ ['e','E'] ∧ sign ∈ [[],['+'],['-']] ∧ AreDigits digits

theorem text_length (n : Numeral) : n.text.length = n.length := by
  simp [text,length,Nat.add_assoc]

theorem scan_some {text : List Char} (digits : (scan text).whole ≠ []) :
    ∃ unsigned behind power rest, text = signPart text ++ unsigned ∧
      unsigned = unsigned.takeWhile isDigit ++ behind ∧ behind = fractionPart behind ++ power ∧
      power = powerPart power ++ rest ∧ unsigned.takeWhile isDigit ≠ [] ∧
      scan text = ⟨signPart text,unsigned.takeWhile isDigit,fractionPart behind,powerPart power⟩ := by
  have found : (text.drop (signPart text).length).takeWhile isDigit ≠ [] := by
    intro none
    simp [scan,none] at digits
  refine ⟨_,_,_,_,(List.prefix_iff_eq_append.mp (signPart_front text)).symm,
    (List.prefix_iff_eq_append.mp (List.takeWhile_prefix isDigit)).symm,
    (List.prefix_iff_eq_append.mp (fractionPart_front _)).symm,
    (List.prefix_iff_eq_append.mp (powerPart_front _)).symm,found,?_⟩
  simp only [scan,List.isEmpty_iff,if_neg found]

theorem scan_front {text : List Char} (digits : (scan text).whole ≠ []) :
    (scan text).text <+: text := by
  obtain ⟨unsigned,behind,power,rest,sign,whole,point,letter,_,found⟩ := scan_some digits
  rw [found,Numeral.text]
  refine ⟨rest,?_⟩
  simp only [List.append_assoc]
  rw [← letter,← point,← whole,← sign]

theorem scan_parts (sign : signPart (s ++ u) = s) (digits : u.takeWhile isDigit ≠ []) :
    scan (s ++ u) = ⟨s,u.takeWhile isDigit,fractionPart (u.dropWhile isDigit),
      powerPart ((u.dropWhile isDigit).drop (fractionPart (u.dropWhile isDigit)).length)⟩ := by
  simp only [scan,sign,List.drop_left,List.isEmpty_iff,if_neg digits,drop_takeWhile]

section
variable {n : Numeral} {rest : List Char}

theorem Formed.signPart (formed : n.Formed) : signPart (n.sign ++ (n.whole ++ rest)) = n.sign := by
  rcases formed.sign with none | minus
  · rw [none]
    exact signPart_again [] (formed.whole.head rest rfl)
  · rw [minus]
    rfl

theorem Formed.fraction_takes (formed : n.Formed) (present : n.fraction ≠ []) (rest : List Char) :
    (n.fraction ++ rest).takeWhile isDigit = [] ∧
      fractionPart (n.fraction ++ rest) = n.fraction ++ rest.takeWhile isDigit := by
  obtain ⟨digits,split,are⟩ := formed.fraction.resolve_left present
  rw [split,List.cons_append,fractionPart_point]
  · exact ⟨rfl,by rw [are.takeWhile]; rfl⟩
  · rw [are.takeWhile]
    exact List.append_ne_nil_of_left_ne_nil are.1 _

theorem Formed.power_takes (formed : n.Formed) (present : n.power ≠ []) (rest : List Char) :
    (n.power ++ rest).takeWhile isDigit = [] ∧ fractionPart (n.power ++ rest) = [] ∧
      powerPart (n.power ++ rest) = n.power ++ rest.takeWhile isDigit := by
  obtain ⟨letter,sign,digits,split,letters,signs,are⟩ := formed.power.resolve_left present
  have power : letter = 'e' ∨ letter = 'E' := by simpa using letters
  have signed : powerSign (sign ++ (digits ++ rest)) = sign := by
    simp only [List.mem_cons,List.not_mem_nil,or_false] at signs
    rcases signs with rfl | rfl | rfl
    · refine powerSign_again [] ?_
      simpa only [List.mem_cons,List.not_mem_nil,or_false,not_or] using ⟨are.head rest rfl,are.head rest rfl⟩
    · rfl
    · rfl
  rw [split,List.cons_append,List.append_assoc,powerPart_letter power]
  · rw [signed,List.drop_left,are.takeWhile]
    refine ⟨?_,?_,by simp⟩ <;> rcases power with rfl | rfl <;> rfl
  · rw [signed,List.drop_left,are.takeWhile]
    exact List.append_ne_nil_of_left_ne_nil are.1 _

-- The sign and the whole part are found whatever stands behind them.
theorem Formed.scan_append (formed : n.Formed) : scan (n.text ++ rest) =
    let behind := n.fraction ++ (n.power ++ rest)
    let after := behind.dropWhile isDigit
    ⟨n.sign,n.whole ++ behind.takeWhile isDigit,fractionPart after,
      powerPart (after.drop (fractionPart after).length)⟩ := by
  have split : n.text ++ rest = n.sign ++ (n.whole ++ (n.fraction ++ (n.power ++ rest))) := by
    simp [text]
  have present : n.whole ++ (n.fraction ++ (n.power ++ rest)).takeWhile isDigit ≠ [] :=
    List.append_ne_nil_of_left_ne_nil formed.whole.1 _
  rw [← formed.whole.takeWhile] at present
  rw [split,scan_parts formed.signPart present,formed.whole.takeWhile,formed.whole.dropWhile]

-- A numeral goes on only in its last part, as long as there are digits.
theorem Formed.scan_power (formed : n.Formed) (power : n.power ≠ []) :
    scan (n.text ++ rest) = ⟨n.sign,n.whole,n.fraction,n.power ++ rest.takeWhile isDigit⟩ := by
  obtain ⟨stops,pointless,takes⟩ := formed.power_takes power rest
  have ends : (n.fraction ++ (n.power ++ rest)).takeWhile isDigit = [] ∧
      fractionPart (n.fraction ++ (n.power ++ rest)) = n.fraction := by
    by_cases none : n.fraction = []
    · rw [none,List.nil_append]
      exact ⟨stops,pointless⟩
    · have point := formed.fraction_takes none (n.power ++ rest)
      rwa [stops,List.append_nil] at point
  simp only [formed.scan_append,dropWhile_stopped ends.1,ends.1,ends.2,List.append_nil,List.drop_left,takes]

theorem Formed.scan_fraction (formed : n.Formed) (none : n.power = []) (fraction : n.fraction ≠ []) :
    scan (n.text ++ rest) =
      ⟨n.sign,n.whole,n.fraction ++ rest.takeWhile isDigit,powerPart (rest.dropWhile isDigit)⟩ := by
  obtain ⟨stops,takes⟩ := formed.fraction_takes fraction rest
  simp only [formed.scan_append,none,List.nil_append,dropWhile_stopped stops,stops,takes,List.append_nil,
    List.length_append,List.drop_length_add_append,drop_takeWhile]

-- Where nothing would make it longer, a numeral is read as it was written.
theorem Formed.scan_ends (formed : n.Formed) (ends : EndsNumeral rest) : scan (n.text ++ rest) = n := by
  have stays := dropWhile_stopped ends.digit
  obtain ⟨sign,whole,fraction,power⟩ := n
  by_cases powerless : power = []
  · subst powerless
    by_cases pointless : fraction = []
    · subst pointless
      simp [formed.scan_append,ends.digit,stays,ends.pointless,ends.powerless]
    · simp [formed.scan_fraction rfl pointless,ends.digit,stays,ends.powerless]
  · simp [formed.scan_power powerless,ends.digit]

theorem Formed.scan_text (formed : n.Formed) : scan n.text = n := by
  have ends : EndsNumeral [] := ⟨rfl,by simp⟩
  have read := formed.scan_ends ends
  rwa [List.append_nil] at read

theorem Formed.text_front (formed : n.Formed) : n.text <+: (scan (n.text ++ rest)).text := by
  by_cases power : n.power = []
  · by_cases fraction : n.fraction = []
    · rw [formed.scan_append]
      simp [text,power,fraction]
    · rw [formed.scan_fraction power fraction]
      simp [text,power]
  · rw [formed.scan_power power]
    simp [text]

theorem scan_formed {text : List Char} (digits : (scan text).whole ≠ []) : (scan text).Formed := by
  obtain ⟨unsigned,behind,power,_,_,_,_,_,whole,found⟩ := scan_some digits
  rw [found]
  refine ⟨?sign,.of_takeWhile whole,?fraction,?power⟩
  case sign => exact (signPart_cases text).imp id fun ⟨_,_,minus⟩ => minus
  case fraction =>
      refine (fractionPart_cases behind).imp id fun ⟨rest,_,digits,taken⟩ => ?_
      exact ⟨_,taken,.of_takeWhile digits⟩
  case power =>
      refine (powerPart_cases power).imp id fun ⟨letter,rest,_,letters,digits,taken⟩ => ?_
      refine ⟨letter,_,_,taken,by simpa using letters,?_,.of_takeWhile digits⟩
      rcases powerSign_cases rest with none | ⟨_,_,_,rfl | rfl,sign⟩
      · simp [none]
      · simp [sign]
      · simp [sign]

-- A numeral is read again from its own characters.
theorem scan_again {text : List Char} (digits : (scan text).whole ≠ []) (ends : EndsNumeral rest) :
    scan ((scan text).text ++ rest) = scan text :=
  (scan_formed digits).scan_ends ends

theorem Formed.scan_whole (formed : n.Formed) (rest : List Char) : (scan (n.text ++ rest)).whole ≠ [] := by
  rw [formed.scan_append]
  exact List.append_ne_nil_of_left_ne_nil formed.whole.1 _

end
end Numeral
end JsonQuery.Number
