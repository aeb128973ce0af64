import JsonQuery.Builtin.Body

namespace JsonQuery
namespace Registry

theorem insertEntry_find (key : String) (value : α) (entries : List (String × α)) (name : String) :
    ((insertEntry key value entries).2.find? (·.1 == name)).map (·.2) =
      if key = name then some value else (entries.find? (·.1 == name)).map (·.2) := by
  induction entries with
  | nil => by_cases same : key = name <;> simp [insertEntry,same]
  | cons entry rest ih =>
      unfold insertEntry
      split
      · rename_i replaces
        by_cases same : key = name
        · simp [same]
        · simp [same,replaces]
      · rename_i different
        by_cases earlier : entry.1 = name
        · have distinct : key ≠ name := fun same => different (earlier.trans same.symm)
          simp [earlier,distinct]
        · simpa [earlier] using ih

theorem insertEntry_mem {key : String} {value : α} {entries : List (String × α)} {entry : String × α}
    (inside : entry ∈ (insertEntry key value entries).2) : entry = (key,value) ∨ entry ∈ entries := by
  induction entries with
  | nil => exact .inl (List.mem_singleton.mp inside)
  | cons first rest ih =>
      unfold insertEntry at inside
      split at inside
      · exact (List.mem_cons.mp inside).imp id (List.mem_cons_of_mem _)
      · rcases List.mem_cons.mp inside with rfl | later
        · exact .inr List.mem_cons_self
        · exact (ih later).imp id (List.mem_cons_of_mem _)

theorem insertEntry_replaced (key : String) (value : α) (entries : List (String × α)) :
    (insertEntry key value entries).1 = (entries.find? (·.1 == key)).map (·.2) := by
  induction entries with
  | nil => rfl
  | cons entry rest ih =>
      unfold insertEntry
      split
      · rename_i same
        simp [same]
      · rename_i different
        simpa [different] using ih

theorem get?_adding (r : Registry) (f : Function) (name : String) :
    (r.adding f).get? name = if f.name = name then some f else r.get? name :=
  insertEntry_find f.name f r.entries name

-- The last function of a name is the one that is found.
theorem get?_addingAll (fs : List Function) (r : Registry) (name : String) :
    (fs.foldl adding r).get? name = (fs.reverse.find? (·.name == name)).or (r.get? name) := by
  induction fs generalizing r with
  | nil => simp
  | cons f fs ih =>
      rw [List.foldl_cons,ih,get?_adding,List.reverse_cons,List.find?_append]
      cases fs.reverse.find? (·.name == name) with
      | some later => simp
      | none => by_cases same : f.name = name <;> simp [same]

theorem registerModules (ms : List FunctionModule) (r : Registry) :
    ms.foldl registerModule r = (ms.flatMap (·.functions)).foldl adding r := by
  induction ms generalizing r with
  | nil => rfl
  | cons m ms ih => rw [List.foldl_cons,ih,List.flatMap_cons,List.foldl_append,registerModule]

theorem clone_eq (r : Registry) : r.clone = r := by
  have same (entry : String × Function) : (entry.1,entry.2.clone) = entry := rfl
  simp only [clone,same,List.map_id']

theorem mem_of_get? {r : Registry} (found : r.get? key = some f) : (key,f) ∈ r.entries := by
  obtain ⟨entry,present,rfl⟩ := Option.map_eq_some_iff.mp found
  obtain rfl : entry.1 = key := by simpa using List.find?_some present
  exact List.mem_of_find?_eq_some present

theorem contains_get? (r : Registry) (key : String) : r.contains key = (r.get? key).isSome := by
  rw [get?,Option.isSome_map,List.isSome_find?,contains]

theorem names_perm (r : Registry) : r.names.Perm (r.entries.map (·.1)) := List.mergeSort_perm _ _

theorem names_ascending (r : Registry) : r.names.Pairwise (· < ·) := by
  have sorted : r.names.Pairwise fun a b => decide (a ≤ b) = true := by
    refine List.pairwise_mergeSort (fun a b c first second => ?_) (fun a b => ?_) _
    · exact decide_eq_true (String.le_trans (of_decide_eq_true first) (of_decide_eq_true second))
    · simpa using String.le_total a b
  have distinct : r.names.Nodup := (names_perm r).nodup_iff.mpr r.distinct
  refine (sorted.and distinct).imp fun both => ?_
  exact Decidable.byContradiction fun behind =>
    both.2 (String.le_antisymm (of_decide_eq_true both.1) (String.not_lt.mp behind))

end Registry

namespace Builtin

def all : List Builtin := groups.flatMap (·.2)

theorem find_name (b : Builtin) : all.reverse.find? (·.name == b.name) = some b := by
  cases b <;> rfl

theorem modules_functions : modules.flatMap (·.functions) = all.map function := rfl

end Builtin

namespace Registry

theorem get?_builtins (name : String) :
    builtins.get? name = (Builtin.all.reverse.find? (·.name == name)).map Builtin.function := by
  rw [builtins,registerModules,Builtin.modules_functions,get?_addingAll,← List.map_reverse,
    List.find?_map]
  have empty : Registry.empty.get? name = none := rfl
  rw [empty,Option.or_none]
  rfl

theorem get?_builtins_some {name : String} {f : Function} :
    builtins.get? name = some f ↔ ∃ b : Builtin, b.name = name ∧ b.function = f := by
  rw [get?_builtins,Option.map_eq_some_iff]
  constructor
  · rintro ⟨b,found,rfl⟩
    exact ⟨b,by simpa using List.find?_some found,rfl⟩
  · rintro ⟨b,rfl,rfl⟩
    exact ⟨b,Builtin.find_name b,rfl⟩

end Registry
end JsonQuery
