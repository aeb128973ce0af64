import JsonQuery.Proofs.Number.Longest
import JsonQuery.Proofs.Token.Written

namespace JsonQuery
open Number

-- A numeral was begun here, and has no digit.
def LoneMinus (text : List Char) : Prop := ∃ later, text = '-' :: later ∧ ∀ c ∈ later.head?, c.isDigit = false

def Number.Numeral.FitsWord (n : Numeral) : Prop :=
  -0x8000000000000000 ≤ n.exactValue ∧ n.exactValue < 0x8000000000000000

instance (n : Numeral) : Decidable n.FitsWord := inferInstanceAs (Decidable (_ ∧ _))

theorem Number.Numeral.scan_whole (text : List Char) :
    (scan text).whole = (text.drop (signPart text).length).takeWhile isDigit := by
  unfold scan
  dsimp only
  split
  · rename_i none
    exact (List.isEmpty_iff.mp none).symm
  · rfl

theorem readNumeral_lone (lone : LoneMinus text) : readNumeral text = .fault .missingDigit 0 1 := by
  obtain ⟨later,rfl,stops⟩ := lone
  have none : later.takeWhile isDigit = [] := by
    cases later with
    | nil => rfl
    | cons c later => rw [List.takeWhile_cons,isDigit_eq,stops c rfl]; rfl
  simp [readNumeral,Numeral.scan,signPart,none,Numeral.length]

section
variable {text : List Char} (digits : (Numeral.scan text).whole ≠ [])
include digits

theorem readNumeral_integral (pointless : (Numeral.scan text).fraction = [])
    (powerless : (Numeral.scan text).power = []) : readNumeral text =
      if (Numeral.scan text).FitsWord then
        ⟨.ok (.integer (Numeral.scan text).exactValue),(Numeral.scan text).text.length⟩
      else .fault (.outOfRange (String.ofList (Numeral.scan text).text)) 0 (Numeral.scan text).text.length := by
  have whole : (Numeral.scan text).isWhole = true := by simp [Numeral.isWhole,pointless,powerless]
  unfold readNumeral
  simp only [List.isEmpty_iff,if_neg digits,if_pos whole,Numeral.wholeValue_exact,Numeral.text_length]
  rfl

theorem readNumeral_parted
    (parted : (Numeral.scan text).fraction ≠ [] ∨ (Numeral.scan text).power ≠ []) : readNumeral text =
      ⟨.ok (.float (Numeral.scan text).toDecimal.toBinary64),(Numeral.scan text).text.length⟩ := by
  have broken : ¬(Numeral.scan text).isWhole = true := by
    simpa [Numeral.isWhole,imp_iff_not_or] using parted
  unfold readNumeral
  simp only [List.isEmpty_iff,if_neg digits,if_neg broken,Numeral.text_length]

end

section
variable {first : Char} (opens : first = '-' ∨ first.isDigit = true)
include opens

theorem scan_digits (here : text = first :: later) (proper : ¬ LoneMinus text) :
    (Numeral.scan text).whole ≠ [] := by
  subst here
  rw [Numeral.scan_whole]
  by_cases minus : first = '-'
  · subst minus
    cases later with
    | nil => exact absurd ⟨[],rfl,nofun⟩ proper
    | cons c later =>
        have digit : c.isDigit = true := by
          by_contra other
          exact proper ⟨_,rfl,by simpa using other⟩
        change (c :: later).takeWhile isDigit ≠ []
        rw [List.takeWhile_cons,isDigit_eq,digit]
        exact List.cons_ne_nil _ _
  · have bare : signPart (first :: later) = [] := signPart_again [] (by simpa using minus)
    rw [bare,List.length_nil,List.drop_zero,List.takeWhile_cons,isDigit_eq,opens.resolve_left minus]
    exact List.cons_ne_nil _ _

theorem Cursor.next_opened {c : Cursor} (here : c.rest = first :: later) :
    c.skipBlanks = c ∧ readToken c.rest = readNumeral c.rest := by
  have visible : isBlank first = false := by
    refine Bool.eq_false_iff.mpr fun blank => ?_
    rcases isBlank_iff.mp blank with rfl | rfl | rfl | rfl <;> revert opens <;> decide
  have bare : first ∉ ['"','\'','\x60'] := by
    simp only [List.mem_cons,List.not_mem_nil,or_false]
    rintro (rfl | rfl | rfl) <;> revert opens <;> decide
  have numeral : (first == '-' || isDigit first) = true := by simpa [isDigit_eq] using opens
  constructor
  · rw [skipBlanks,here,List.takeWhile_cons,visible]
    rfl
  · rw [here,readToken_bare bare,if_pos numeral]

theorem Cursor.next_fault {c : Cursor} (here : c.rest = first :: later)
    (read : readNumeral c.rest = .fault fault 0 n) : c.next = (.error ⟨fault,c.position⟩,c.advance n) := by
  obtain ⟨start,numeral⟩ := next_opened opens here
  simp only [next,start,numeral,read]
  rfl

theorem Cursor.next_front {c : Cursor} (here : c.rest = first :: later) (front : used <+: c.rest)
    (read : readNumeral c.rest = ⟨.ok kind,used.length⟩) :
    c.next = (.ok ⟨kind,String.ofList used,c.position⟩,c.advance used.length) := by
  obtain ⟨start,numeral⟩ := next_opened opens here
  have found : (readToken c.skipBlanks.rest).outcome = .ok kind := by rw [start,numeral,read]
  rw [c.next_found found,start,numeral,read,← List.prefix_iff_eq_take.mp front]

theorem Cursor.next_scanned {c : Cursor} (here : c.rest = first :: later) (proper : ¬ LoneMinus c.rest) :
    let n := Numeral.scan c.rest
    c.next = (if n.fraction = [] ∧ n.power = [] then
        if n.FitsWord then .ok ⟨.integer n.exactValue,String.ofList n.text,c.position⟩
        else .error ⟨.outOfRange (String.ofList n.text),c.position⟩
      else .ok ⟨.float n.toDecimal.toBinary64,String.ofList n.text,c.position⟩,c.advance n.text.length) := by
  intro n
  have digits : n.whole ≠ [] := scan_digits opens here proper
  have front : n.text <+: c.rest := Numeral.scan_front digits
  by_cases integral : n.fraction = [] ∧ n.power = []
  · have read := readNumeral_integral digits integral.1 integral.2
    by_cases fits : n.FitsWord
    · rw [if_pos integral,if_pos fits]
      exact next_front opens here front (read.trans (if_pos fits))
    · rw [if_pos integral,if_neg fits]
      exact next_fault opens here (read.trans (if_neg fits))
  · rw [if_neg integral]
    exact next_front opens here front (readNumeral_parted digits (not_and_or.mp integral))

end

theorem LexFault.outOfRange_describe (numeral : String) :
    (outOfRange numeral).describe ≠ missingDigit.describe := by
  intro same
  have texts : ("number " ++ numeral ++ " is out of range").toList = "expected digit after '-'".toList :=
    congrArg String.toList same
  simp at texts

-- The next token at a digit or a minus sign is read from the longest numeral there, and nothing
-- is refused but a minus sign alone and an integer that no word holds.
theorem Cursor.next_numeral {c : Cursor} (opens : first = '-' ∨ first.isDigit = true)
    (here : c.rest = first :: later) :
    ((∃ e, c.next.1 = .error e ∧ e.fault.describe = "expected digit after '-'") ↔ LoneMinus c.rest) ∧
    (LoneMinus c.rest → c.next = (.error ⟨.missingDigit,c.position⟩,c.advance 1)) ∧
    (¬ LoneMinus c.rest → ∃ n : Numeral, (∀ m : Numeral, m.Longest c.rest ↔ m = n) ∧
      c.next.2 = c.advance n.text.length ∧
      ((∃ x, c.next.1 = .ok ⟨.float x,String.ofList n.text,c.position⟩) ↔ n.fraction ≠ [] ∨ n.power ≠ []) ∧
      (n.fraction = [] → n.power = [] → c.next.1 =
        if n.FitsWord then .ok ⟨.integer n.exactValue,String.ofList n.text,c.position⟩
        else .error ⟨.outOfRange (String.ofList n.text),c.position⟩)) := by
  have lone (minus : LoneMinus c.rest) : c.next = (.error ⟨.missingDigit,c.position⟩,c.advance 1) :=
    next_fault opens here (readNumeral_lone minus)
  have scanned (proper : ¬ LoneMinus c.rest) := next_scanned opens here proper
  refine ⟨⟨?missing,fun minus => ⟨_,congrArg Prod.fst (lone minus),rfl⟩⟩,lone,fun proper => ?longest⟩
  case missing =>
      rintro ⟨e,failed,told⟩
      by_contra proper
      rw [scanned proper] at failed
      dsimp only at failed
      split at failed
      · split at failed
        · cases failed
        · cases failed
          exact LexFault.outOfRange_describe _ told
      · cases failed
  case longest =>
      have digits := scan_digits opens here proper
      refine ⟨Numeral.scan c.rest,fun m => ?_,?_,?_,fun pointless powerless => ?_⟩
      · rw [Numeral.longest_iff]
        exact ⟨fun found => found.2.symm,fun same => ⟨digits,same.symm⟩⟩
      · rw [scanned proper]
      · rw [scanned proper,← not_and_or]
        constructor
        · rintro ⟨x,read⟩ integral
          simp only [if_pos integral] at read
          split at read <;> cases read
        · intro parted
          exact ⟨_,if_neg parted⟩
      · rw [scanned proper]
        exact if_pos ⟨pointless,powerless⟩

-- The least word, with a point and a letter behind it that no digit follows.
theorem Cursor.next_numeral_least :
    let c := Cursor.start "-9223372036854775808.e5"
    let n : Numeral := ⟨['-'],"9223372036854775808".toList,[],[]⟩
    ¬ LoneMinus c.rest ∧ n.Longest c.rest ∧
      c.next = (.ok ⟨.integer (-0x8000000000000000),"-9223372036854775808",.start⟩,⟨".e5".toList,⟨20,1,21⟩⟩) := by
  intro c n
  have here : c.rest = '-' :: "9223372036854775808.e5".toList := by cbv
  have proper : ¬ LoneMinus c.rest := by
    rintro ⟨_,same,stops⟩
    rw [here] at same
    cases same
    cases stops '9' rfl
  obtain ⟨_,_,longest⟩ := Cursor.next_numeral (.inl rfl) here
  obtain ⟨m,only,moved,_,integral⟩ := longest proper
  have found : n.Longest c.rest := Numeral.longest_iff.mpr ⟨by decide,by cbv⟩
  obtain rfl := (only n).mp found
  have value : n.exactValue = -0x8000000000000000 := by decide +kernel
  have fits : n.FitsWord := by
    rw [Numeral.FitsWord,value]
    decide
  have text : String.ofList n.text = "-9223372036854775808" := by cbv
  have behind : c.advance n.text.length = ⟨".e5".toList,⟨20,1,21⟩⟩ := by cbv
  have answer := (integral rfl rfl).trans (if_pos fits)
  rw [value,text] at answer
  exact ⟨proper,found,Prod.ext answer (moved.trans behind)⟩

end JsonQuery
