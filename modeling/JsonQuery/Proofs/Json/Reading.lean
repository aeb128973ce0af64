import JsonQuery.Json.Reader
import JsonQuery.Proofs.Json.WellFormed
import JsonQuery.Proofs.Number.Scaled

namespace JsonQuery.Json
open Number

theorem integer?_fits {n : Numeral} (found : integer? n = some value) : (Numeric.int value).WellFormed := by
  unfold integer? at found
  dsimp only at found
  split at found
  · rename_i word
    cases found
    exact word.2.2
  · cases found

theorem readNumber_fits {text : List Char} (found : readNumber text = some (n,rest)) : n.WellFormed := by
  unfold readNumber at found
  dsimp only at found
  split at found
  · cases found
  · cases found
  · split at found
    · rename_i value word
      cases found
      exact integer?_fits word
    · obtain ⟨x,read,made⟩ := Option.map_eq_some_iff.mp found
      cases made
      exact Numeral.quick?_finite read

theorem readScalar_wellFormed {text : List Char} (found : readScalar text = some (v,rest)) : v.WellFormed := by
  unfold readScalar at found
  split at found
  · obtain ⟨⟨content,tail⟩,_,made⟩ := Option.bind_eq_some_iff.mp found
    cases made
    exact .string
  · obtain ⟨tail,_,made⟩ := Option.map_eq_some_iff.mp found
    cases made
    exact .null
  · obtain ⟨tail,_,made⟩ := Option.map_eq_some_iff.mp found
    cases made
    exact .bool
  · obtain ⟨tail,_,made⟩ := Option.map_eq_some_iff.mp found
    cases made
    exact .bool
  · obtain ⟨⟨n,tail⟩,read,made⟩ := Option.bind_eq_some_iff.mp found
    cases made
    exact .number (readNumber_fits read)

section
variable {value : List Char → Option (Json × List Char)}
  (formed : ∀ text v rest, value text = some (v,rest) → v.WellFormed)
include formed

theorem readElements_wellFormed (found : readElements value n text = some (vs,rest)) :
    ∀ v ∈ vs, v.WellFormed := by
  induction n generalizing text vs with
  | zero => cases found
  | succ n ih =>
      unfold readElements at found
      obtain ⟨⟨element,behind⟩,first,found⟩ := Option.bind_eq_some_iff.mp found
      have one := formed _ _ _ first
      dsimp only at found
      split at found
      · obtain ⟨⟨more,tail⟩,later,made⟩ := Option.bind_eq_some_iff.mp found
        cases made
        exact List.forall_mem_cons.mpr ⟨one,ih later⟩
      · cases found
        exact List.forall_mem_singleton.mpr one
      · cases found

theorem readEntries_wellFormed (found : readEntries value n text = some (es,rest)) :
    ∀ entry ∈ es, entry.2.WellFormed := by
  induction n generalizing text es with
  | zero => cases found
  | succ n ih =>
      unfold readEntries at found
      split at found
      · obtain ⟨⟨key,behind⟩,_,found⟩ := Option.bind_eq_some_iff.mp found
        dsimp only at found
        split at found
        · obtain ⟨⟨entry,behind⟩,first,found⟩ := Option.bind_eq_some_iff.mp found
          have one := formed _ _ _ first
          dsimp only at found
          split at found
          · obtain ⟨⟨more,tail⟩,later,made⟩ := Option.bind_eq_some_iff.mp found
            cases made
            exact List.forall_mem_cons.mpr ⟨one,ih later⟩
          · cases found
            exact List.forall_mem_singleton.mpr one
          · cases found
        · cases found
      · cases found

end

theorem readValue_wellFormed (depth : Nat) (text : List Char) (v : Json) (rest : List Char)
    (found : readValue depth text = some (v,rest)) : v.WellFormed := by
  induction depth generalizing text v rest with
  | zero => exact readScalar_wellFormed found
  | succ depth ih =>
      unfold readValue at found
      split at found
      · split at found
        · cases found
          exact .array nofun
        · obtain ⟨⟨elements,tail⟩,read,made⟩ := Option.bind_eq_some_iff.mp found
          cases made
          exact .array (readElements_wellFormed ih read)
      · split at found
        · cases found
          exact .object List.nodup_nil nofun
        · obtain ⟨⟨entries,tail⟩,read,made⟩ := Option.bind_eq_some_iff.mp found
          cases made
          exact ofPairs_wellFormed (readEntries_wellFormed ih read)
      · exact readScalar_wellFormed found

theorem read_wellFormed {text : String} (found : read text = some v) : v.WellFormed := by
  obtain ⟨⟨value,rest⟩,read,ended⟩ := Option.bind_eq_some_iff.mp found
  dsimp only at ended
  split at ended
  · cases ended
    exact readValue_wellFormed _ _ _ _ read
  · cases ended

end JsonQuery.Json
