import JsonQuery.Json.Slice
import JsonQuery.Json.Sorting

namespace JsonQuery
open Number

-- An integer is a word, signed or not; every other number is finite.
def Numeric.WellFormed : Numeric → Prop
  | .int n => -0x8000000000000000 ≤ n ∧ n < 0x10000000000000000
  | .float x => x.isFinite = true

-- What a document can hold, at every depth.
inductive Json.WellFormed : Json → Prop where
  | null : WellFormed .null
  | bool : WellFormed (.bool b)
  | number (fits : n.WellFormed) : WellFormed (.number n)
  | string : WellFormed (.string s)
  | array {vs : List Json} (each : ∀ v ∈ vs, WellFormed v) : WellFormed (.array vs)
  | object {es : List (String × Json)} (distinct : (es.map (·.1)).Nodup)
      (each : ∀ entry ∈ es, WellFormed entry.2) : WellFormed (.object es)

structure Entries.WellFormed (entries : Entries) : Prop where
  distinct : (entries.map (·.1)).Nodup
  each : ∀ entry ∈ entries, entry.2.WellFormed

namespace Entries

theorem put_keys (entries : Entries) (key : String) (value : Json) : (put entries key value).map (·.1) =
    if key ∈ entries.map (·.1) then entries.map (·.1) else entries.map (·.1) ++ [key] := by
  induction entries with
  | nil => rfl
  | cons entry rest ih =>
      unfold put
      split
      · rename_i same
        simp [same]
      · rename_i different
        rw [List.map_cons,ih]
        by_cases present : key ∈ rest.map (·.1) <;> simp [present,Ne.symm different]

theorem mem_put {entries : Entries} (present : entry ∈ put entries key value) :
    entry ∈ entries ∨ entry.2 = value := by
  induction entries with
  | nil => exact .inr (List.mem_singleton.mp present ▸ rfl)
  | cons first rest ih =>
      unfold put at present
      split at present
      · rcases List.mem_cons.mp present with rfl | later
        · exact .inr rfl
        · exact .inl (List.mem_cons_of_mem _ later)
      · rcases List.mem_cons.mp present with rfl | later
        · exact .inl List.mem_cons_self
        · exact (ih later).imp_left (List.mem_cons_of_mem _)

theorem WellFormed.put {entries : Entries} (formed : entries.WellFormed) (value : v.WellFormed) (key : String) :
    (put entries key v).WellFormed := by
  refine ⟨?_,fun entry present => ?_⟩
  · rw [put_keys]
    split
    · exact formed.distinct
    · rename_i absent
      exact List.nodup_append.mpr ⟨formed.distinct,List.pairwise_singleton _ _,by grind⟩
  · rcases mem_put present with old | new
    · exact formed.each entry old
    · exact new ▸ value

theorem WellFormed.putAll {entries : Entries} (formed : entries.WellFormed) {pairs : List (String × Json)}
    (each : ∀ pair ∈ pairs, pair.2.WellFormed) :
    (pairs.foldl (fun entries pair => Entries.put entries pair.1 pair.2) entries).WellFormed := by
  induction pairs generalizing entries with
  | nil => exact formed
  | cons pair pairs ih =>
      obtain ⟨first,later⟩ := List.forall_mem_cons.mp each
      exact ih (formed.put first pair.1) later

theorem WellFormed.empty : WellFormed [] := ⟨List.nodup_nil,nofun⟩

end Entries

namespace Json

theorem ofPairs_wellFormed {pairs : List (String × Json)} (each : ∀ pair ∈ pairs, pair.2.WellFormed) :
    (ofPairs pairs).WellFormed := by
  have formed : Entries.WellFormed (Entries.ofList pairs) := Entries.WellFormed.empty.putAll each
  exact .object formed.distinct formed.each

-- Whole numbers that are no signed word stay floats, and what is not finite becomes null.
theorem ofBinary64_wellFormed (x : Binary64) : (ofBinary64 x).WellFormed := by
  unfold ofBinary64
  split
  · rename_i n whole
    split
    · rename_i word
      exact .number ⟨word.1,by omega⟩
    · have finite : x.isFinite = true := by
        cases x with
        | finite => rfl
        | _ => cases whole
      exact .number finite
  · split
    · rename_i finite
      exact .number finite
    · exact .null

section
variable {v : Json}

theorem WellFormed.elements (formed : v.WellFormed) : ∀ element ∈ v.elements, element.WellFormed := by
  cases formed with
  | array each => exact each
  | _ => nofun

theorem WellFormed.entries (formed : v.WellFormed) : v.entries.WellFormed := by
  cases formed with
  | object distinct each => exact ⟨distinct,each⟩
  | _ => exact .empty

theorem WellFormed.getD_null {found : Option Json} (each : ∀ v ∈ found, v.WellFormed) :
    (found.getD .null).WellFormed := by
  cases found with
  | none => exact .null
  | some v => exact each v rfl

theorem WellFormed.values (formed : v.WellFormed) : ∀ value ∈ v.values, value.WellFormed :=
  List.forall_mem_map.mpr formed.entries.each

theorem WellFormed.property (formed : v.WellFormed) (name : String) :
    ((v.property? name).getD .null).WellFormed := by
  refine .getD_null fun value found => ?_
  obtain ⟨entry,present,rfl⟩ := Option.map_eq_some_iff.mp found
  exact formed.entries.each entry (List.mem_of_find?_eq_some present)

theorem WellFormed.atIndex (formed : v.WellFormed) (i : Int) : (v.atIndex i).WellFormed := by
  unfold Json.atIndex
  extract_lets position
  split
  · exact .null
  · exact .getD_null fun value found => formed.elements value (List.mem_of_getElem? found)

theorem WellFormed.sliceElements {elements : List Json} (each : ∀ v ∈ elements, v.WellFormed) (s : Slice)
    (step : Int) : (Json.array (Json.sliceElements elements s step)).WellFormed := by
  refine .array fun v present => ?_
  obtain ⟨position,_,found⟩ := List.mem_filterMap.mp present
  exact each v (List.mem_of_getElem? found)

theorem WellFormed.flatten (formed : v.WellFormed) : v.flatten.WellFormed := by
  cases formed with
  | array each =>
      refine .array fun inner present => ?_
      obtain ⟨element,member,inside⟩ := List.mem_flatMap.mp present
      have one := each element member
      split at inside
      · exact one.elements inner inside
      · exact List.mem_singleton.mp inside ▸ one
  | _ => exact .null

end

theorem extremeOn_mem {key : α → Json} {items : List α} (found : extremeOn wins key items = some best) :
    best ∈ items := by
  have holds : ∀ (items : List α) (held : Option α), items.foldl (challenge wins key) held = some best →
      held = some best ∨ best ∈ items := by
    intro items
    induction items with
    | nil => exact fun held same => .inl same
    | cons item items ih =>
        intro held found
        rcases ih _ found with now | later
        · unfold challenge at now
          split at now
          · exact .inr (Option.some.inj now ▸ List.mem_cons_self)
          · split at now
            · exact .inr (Option.some.inj now ▸ List.mem_cons_self)
            · exact .inl now
        · exact .inr (List.mem_cons_of_mem _ later)
  exact (holds items none found).resolve_left nofun

theorem mem_sortOn {key : α → Json} {items : List α} : item ∈ sortOn key items ↔ item ∈ items :=
  List.mem_mergeSort

end Json
end JsonQuery
