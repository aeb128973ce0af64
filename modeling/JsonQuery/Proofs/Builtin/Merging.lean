import JsonQuery.Builtin.Body
import JsonQuery.Proofs.Json.Entries

namespace JsonQuery

namespace Entries
section
variable {entries : Entries} {key : String}

theorem put_present (v : Json) (position : Nat) (found : (entries.map (·.1)).idxOf? key = some position) :
    put entries key v = entries.modify position fun entry => (entry.1,v) := by
  induction entries generalizing position with
  | nil => cases found
  | cons entry rest ih =>
      rw [List.map_cons,List.idxOf?_cons] at found
      unfold put
      by_cases same : entry.1 = key
      · rw [if_pos (beq_iff_eq.mpr same)] at found
        cases found
        exact if_pos same
      · rw [if_neg (fun equal => same (beq_iff_eq.mp equal))] at found
        obtain ⟨before,later,rfl⟩ := Option.map_eq_some_iff.mp found
        rw [if_neg same,ih before later]
        rfl

theorem put_absent (v : Json) (absent : key ∉ entries.map (·.1)) : put entries key v = entries ++ [(key,v)] := by
  induction entries with
  | nil => rfl
  | cons entry rest ih =>
      obtain ⟨other,later⟩ := List.ne_and_not_mem_of_not_mem_cons absent
      unfold put
      rw [if_neg other.symm,ih later]
      rfl

theorem modify_keys (entries : Entries) (position : Nat) (v : Json) :
    (entries.modify position fun entry => (entry.1,v)).map (·.1) = entries.map (·.1) := by
  refine List.ext_getElem? fun i => ?_
  rw [List.getElem?_map,List.getElem?_map,List.getElem?_modify]
  split <;> cases entries[i]? <;> rfl

end
end Entries

namespace Builtin
namespace Merging

-- The table tells of each key where it stands first, and of no other key.
def Indexed (m : Merging) : Prop := ∀ key, m.positions.lookup key = (m.entries.map (·.1)).idxOf? key

theorem empty_indexed : Indexed ⟨[],[]⟩ := fun _ => rfl

section
variable {m : Merging} (indexed : m.Indexed)
include indexed

theorem take_entries (key : String) (v : Json) : (m.take key v).entries = Entries.put m.entries key v := by
  unfold take
  rw [indexed key]
  split
  · rename_i position found
    exact (Entries.put_present v position found).symm
  · rename_i missing
    exact (Entries.put_absent v (List.idxOf?_eq_none_iff.mp missing)).symm

theorem take_indexed (key : String) (v : Json) : (m.take key v).Indexed := by
  intro name
  unfold take
  split
  · rename_i position found
    dsimp only
    rw [Entries.modify_keys]
    exact indexed name
  · rename_i missing
    rw [indexed key] at missing
    rw [List.map_append,List.idxOf?,List.findIdx?_append,List.lookup_cons]
    by_cases same : name = key
    · subst same
      rw [List.idxOf?] at missing
      simp [missing]
    · have other : (name == key) = false := beq_eq_false_iff_ne.mpr same
      have apart : (key == name) = false := beq_eq_false_iff_ne.mpr (Ne.symm same)
      rw [other]
      dsimp only
      rw [indexed name]
      simp [apart,List.idxOf?]

theorem copies (entries : Entries) (under : ∀ entry ∈ entries, v.property? entry.1 = some entry.2) :
    ((entries.map (·.1)).foldl (copy v) m).entries =
        entries.foldl (fun entries entry => Entries.put entries entry.1 entry.2) m.entries ∧
      ((entries.map (·.1)).foldl (copy v) m).Indexed := by
  induction entries generalizing m with
  | nil => exact ⟨rfl,indexed⟩
  | cons entry rest ih =>
      obtain ⟨here,later⟩ := List.forall_mem_cons.mp under
      have copied : copy v m entry.1 = m.take entry.1 entry.2 := by
        unfold copy
        rw [here]
      rw [List.map_cons,List.foldl_cons,List.foldl_cons,copied,← take_entries indexed]
      exact ih (take_indexed indexed entry.1 entry.2) later

theorem absorb_entries (distinct : v.keys.Nodup) : (m.absorb v).entries =
      v.entries.foldl (fun entries entry => Entries.put entries entry.1 entry.2) m.entries ∧
    (m.absorb v).Indexed := by
  unfold absorb
  split
  · exact copies indexed v.entries fun entry present => (Entries.get?_some distinct).mpr present
  · rename_i other
    cases v with
    | object => exact absurd rfl other
    | _ => exact ⟨rfl,indexed⟩

theorem absorbed {vs : List Json} (distinct : ∀ v ∈ vs, v.keys.Nodup) : (vs.foldl absorb m).entries =
    (vs.flatMap Json.entries).foldl (fun entries entry => Entries.put entries entry.1 entry.2) m.entries := by
  induction vs generalizing m with
  | nil => rfl
  | cons v vs ih =>
      obtain ⟨first,later⟩ := List.forall_mem_cons.mp distinct
      obtain ⟨taken,indexed⟩ := absorb_entries indexed first
      rw [List.foldl_cons,List.flatMap_cons,List.foldl_append,← taken]
      exact ih indexed later

end
end Merging

section
variable {vs : List Json} (distinct : ∀ v ∈ vs, v.keys.Nodup)
include distinct

-- The table only saves the search: the entries are those of all the objects in a row.
theorem mergeBody_ofPairs : mergeBody vs = .ofPairs (vs.flatMap Json.entries) := by
  have taken := Merging.absorbed Merging.empty_indexed distinct
  have again := Entries.ofList_earlier (vs.flatMap Json.entries) []
  rw [List.append_nil,List.append_nil] at again
  unfold mergeBody
  rw [taken]
  exact congrArg Json.object again

theorem mergeBody_keys : (mergeBody vs).keys = (vs.flatMap Json.keys).eraseDups := by
  rw [mergeBody_ofPairs distinct]
  refine (Entries.ofList_keys _).trans ?_
  rw [List.map_flatMap]
  rfl

-- The last object that has the key decides.
theorem mergeBody_property (key : String) : (mergeBody vs).property? key = vs.reverse.findSome? (·.property? key) := by
  rw [mergeBody_ofPairs distinct]
  refine (Entries.get?_ofList _ key).trans ?_
  induction vs with
  | nil => rfl
  | cons v vs ih =>
      obtain ⟨first,later⟩ := List.forall_mem_cons.mp distinct
      have own : Entries.get? v.entries.reverse key = v.property? key :=
        (Entries.get?_perm first v.entries.reverse_perm.symm key).symm
      rw [List.flatMap_cons,List.reverse_append,Entries.get?_append,ih later,own,List.reverse_cons,
        List.findSome?_append,List.findSome?_singleton]

theorem mergeBody_distinct : (mergeBody vs).keys.Nodup := by
  rw [mergeBody_keys distinct]
  exact eraseDups_nodup _

end

section
variable {front back : List Json} (first : ∀ v ∈ front, v.keys.Nodup) (second : ∀ v ∈ back, v.keys.Nodup)
include first second

theorem mergeBody_front : mergeBody (mergeBody front :: back) = mergeBody (front ++ back) := by
  have made : ∀ v ∈ mergeBody front :: back, v.keys.Nodup :=
    List.forall_mem_cons.mpr ⟨mergeBody_distinct first,second⟩
  have whole : ∀ v ∈ front ++ back, v.keys.Nodup := List.forall_mem_append.mpr ⟨first,second⟩
  rw [mergeBody_ofPairs made,mergeBody_ofPairs whole,List.flatMap_cons,List.flatMap_append,mergeBody_ofPairs first]
  exact congrArg Json.object (Entries.ofList_earlier _ _)

theorem mergeBody_back : mergeBody (front ++ [mergeBody back]) = mergeBody (front ++ back) := by
  have made : ∀ v ∈ front ++ [mergeBody back], v.keys.Nodup :=
    List.forall_mem_append.mpr ⟨first,List.forall_mem_singleton.mpr (mergeBody_distinct second)⟩
  have whole : ∀ v ∈ front ++ back, v.keys.Nodup := List.forall_mem_append.mpr ⟨first,second⟩
  rw [mergeBody_ofPairs made,mergeBody_ofPairs whole,List.flatMap_append,List.flatMap_append,List.flatMap_singleton,
    mergeBody_ofPairs second]
  exact congrArg Json.object (Entries.ofList_later _ _)

end
end Builtin
end JsonQuery
