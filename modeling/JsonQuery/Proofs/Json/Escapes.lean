import JsonQuery.Proofs.Json.Document
import JsonQuery.Proofs.Token.Spelling

namespace JsonQuery
open Number

theorem Paired.append (first : Paired mark text) (second : Paired mark rest) : Paired mark (text ++ rest) := by
  induction first with
  | nil => exact second
  | pair other _ ih => exact .pair other ih
  | plain noEscape _ ih => exact .plain noEscape ih

def Unescaped (text : List Char) : Prop := ∀ c ∈ text, c ≠ '\\'

instance (text : List Char) : Decidable (Unescaped text) :=
  decidable_of_iff (text.all (· != '\\') = true) (by simp [Unescaped])

theorem Unescaped.paired (unescaped : Unescaped text) : Paired mark text := by
  induction text with
  | nil => exact .nil
  | cons c text ih =>
      obtain ⟨first,others⟩ := List.forall_mem_cons.mp unescaped
      exact .plain first (ih others)

theorem Blank.unescaped (gap : Blank text) : Unescaped text := by
  rintro _ inside rfl
  cases gap _ inside

theorem WritesCode.unescaped (written : WritesCode digits code) : Unescaped digits := by
  rintro _ inside rfl
  have read := hexValue?_iff.mpr written
  unfold hexValue? at read
  split at read
  · rename_i all
    cases List.all_eq_true.mp all.2 _ inside
  · cases read

theorem Number.AreDigits.unescaped (digits : AreDigits text) : Unescaped text := by
  rintro _ inside rfl
  cases digits.2 _ inside

theorem Number.Numeral.Formed.unescaped {n : Numeral} (formed : n.Formed) : Unescaped n.text := by
  have sign : Unescaped n.sign := by
    rcases formed.sign with none | minus
    · rw [none]
      exact nofun
    · rw [minus]
      decide
  have fraction : Unescaped n.fraction := by
    rcases formed.fraction with none | ⟨digits,split,are⟩
    · rw [none]
      exact nofun
    · rw [split]
      exact List.forall_mem_cons.mpr ⟨by decide,are.unescaped⟩
  have power : Unescaped n.power := by
    rcases formed.power with none | ⟨letter,sign,digits,split,letters,signs,are⟩
    · rw [none]
      exact nofun
    · simp only [List.mem_cons,List.not_mem_nil,or_false] at letters signs
      have front : letter ≠ '\\' := by rcases letters with rfl | rfl <;> decide
      have signed : Unescaped sign := by rcases signs with rfl | rfl | rfl <;> decide
      rw [split]
      exact List.forall_mem_cons.mpr ⟨front,List.forall_mem_append.mpr ⟨signed,are.unescaped⟩⟩
  rw [Numeral.text]
  exact List.forall_mem_append.mpr ⟨List.forall_mem_append.mpr ⟨List.forall_mem_append.mpr
    ⟨sign,formed.whole.unescaped⟩,fraction⟩,power⟩

namespace Json

-- A mark that no escape of a document ends in.
def Unlisted (mark : Char) : Prop := mark ≠ 'u' ∧ ∀ entry ∈ shortEscapes, entry.1 ≠ mark

section
variable {mark : Char}

theorem commaed_paired (all : ∀ text ∈ texts, Paired mark text) : Paired mark (commaed texts) := by
  induction texts with
  | nil => exact .nil
  | cons text texts ih =>
      obtain ⟨first,others⟩ := List.forall_mem_cons.mp all
      by_cases none : texts = []
      · subst none
        simpa [commaed] using first
      · rw [commaed,List.intercalate_cons_of_ne_nil none,List.append_assoc]
        exact first.append (.plain (by decide) (ih others))

-- Text between two characters that are no escapes.
theorem enclosed_paired (first : opening ≠ '\\') (last : closing ≠ '\\') (paired : Paired mark text) :
    Paired mark (opening :: (text ++ [closing])) :=
  .plain first (paired.append (.plain last .nil))

theorem Inside.paired (unlisted : Unlisted mark) (inside : Inside text) : Paired mark text := by
  induction inside with
  | nil => exact .nil
  | plain _ _ noEscape _ ih => exact .plain noEscape ih
  | short listed _ ih => exact .pair (unlisted.2 _ listed) ih
  | unit written _ ih => exact .pair unlisted.1.symm (written.unescaped.paired.append ih)

-- In a document every backslash starts an escape, and no escape ends in the mark.
theorem Forms.paired (unlisted : Unlisted mark) (form : Forms part text) : Paired mark text := by
  induction form with
  | @word word known =>
      have plain : Unescaped word.toList := by
        simp only [List.mem_cons,List.not_mem_nil,or_false] at known
        rcases known with rfl | rfl | rfl <;> decide
      exact plain.paired
  | number form =>
      obtain ⟨n,formed,_,rfl⟩ := form
      exact formed.unescaped.paired
  | string inside => exact enclosed_paired (by decide) (by decide) (inside.paired unlisted)
  | emptyArray gap | emptyObject gap => exact enclosed_paired (by decide) (by decide) gap.unescaped.paired
  | array _ _ ih | object _ _ ih => exact enclosed_paired (by decide) (by decide) (commaed_paired ih)
  | padded before _ behind ih =>
      exact before.unescaped.paired.append (ih.append behind.unescaped.paired)
  | member before key behind _ ih =>
      refine before.unescaped.paired.append (.plain (by decide) ?_)
      refine (key.paired unlisted).append (.plain (by decide) ?_)
      exact behind.unescaped.paired.append (.plain (by decide) ih)

end
end Json
end JsonQuery
