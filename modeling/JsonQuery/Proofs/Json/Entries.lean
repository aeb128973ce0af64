import Mathlib.Data.List.Induction
import JsonQuery.Proofs.Json.WellFormed

namespace JsonQuery

section
variable [DecidableEq α] (items others : List α)

theorem eraseDups_concat (x : α) :
    (items ++ [x]).eraseDups = if x ∈ items then items.eraseDups else items.eraseDups ++ [x] := by
  rw [List.eraseDups_append]
  split
  · rename_i present
    simp [List.removeAll,present]
  · rename_i absent
    simp [List.removeAll,absent,List.eraseDups_cons]

theorem eraseDups_nodup : items.eraseDups.Nodup := by
  induction items using List.reverseRecOn with
  | nil => exact List.nodup_nil
  | append_singleton items x ih =>
      rw [eraseDups_concat]
      split
      · exact ih
      · rename_i absent
        rw [List.nodup_append]
        refine ⟨ih,List.pairwise_singleton _ x,fun y present z here same => absent ?_⟩
        obtain rfl := List.mem_singleton.mp here
        exact List.mem_eraseDups.mp (same ▸ present)

theorem eraseDups_later : (items ++ others.eraseDups).eraseDups = (items ++ others).eraseDups := by
  induction others using List.reverseRecOn with
  | nil => rfl
  | append_singleton others x ih =>
      rw [eraseDups_concat,← List.append_assoc,eraseDups_concat]
      split
      · rename_i present
        rw [ih,if_pos (List.mem_append_right items present)]
      · rw [← List.append_assoc,eraseDups_concat,ih]
        simp only [List.mem_append,List.mem_eraseDups]

theorem eraseDups_earlier : (items.eraseDups ++ others).eraseDups = (items ++ others).eraseDups := by
  induction others using List.reverseRecOn with
  | nil => simpa using eraseDups_later [] items
  | append_singleton others x ih =>
      rw [← List.append_assoc,← List.append_assoc,eraseDups_concat,eraseDups_concat,ih]
      simp only [List.mem_append,List.mem_eraseDups]

end

namespace Entries
section
variable {entries : Entries} {key : String}

theorem get?_cons (entry : String × Json) (rest : Entries) (key : String) :
    get? (entry :: rest) key = if entry.1 = key then some entry.2 else get? rest key := by
  unfold get?
  by_cases same : entry.1 = key <;> simp [same]

theorem get?_append (first second : Entries) (key : String) :
    get? (first ++ second) key = (get? first key).or (get? second key) := by
  unfold get?
  rw [List.find?_append,Option.map_or]

theorem mem_of_get? (found : get? entries key = some v) : (key,v) ∈ entries := by
  obtain ⟨entry,present,rfl⟩ := Option.map_eq_some_iff.mp found
  obtain rfl : entry.1 = key := by simpa using List.find?_some present
  exact List.mem_of_find?_eq_some present

theorem get?_none : get? entries key = none ↔ key ∉ entries.map (·.1) := by
  refine Option.map_eq_none_iff.trans (List.find?_eq_none.trans ?_)
  rw [List.mem_map,not_exists]
  simp only [beq_iff_eq,not_and]

theorem get?_some (distinct : (entries.map (·.1)).Nodup) : get? entries key = some v ↔ (key,v) ∈ entries := by
  refine ⟨mem_of_get?,fun present => ?_⟩
  induction entries with
  | nil => cases present
  | cons entry rest ih =>
      obtain ⟨fresh,distinct⟩ := List.nodup_cons.mp distinct
      rw [get?_cons]
      rcases List.mem_cons.mp present with rfl | later
      · exact if_pos rfl
      · have other : entry.1 ≠ key := by
          intro same
          exact fresh (List.mem_map.mpr ⟨(key,v),later,same.symm⟩)
        rw [if_neg other]
        exact ih distinct later

theorem get?_perm {others : Entries} (distinct : (entries.map (·.1)).Nodup) (order : entries.Perm others) (key : String) :
    get? entries key = get? others key := by
  have distinct' := (order.map (·.1)).nodup_iff.mp distinct
  refine Option.ext fun v => ?_
  rw [get?_some distinct,get?_some distinct',order.mem_iff]

theorem get?_put (entries : Entries) (name : String) (v : Json) (key : String) :
    get? (put entries name v) key = if name = key then some v else get? entries key := by
  induction entries with
  | nil => exact get?_cons (name,v) [] key
  | cons entry rest ih =>
      unfold put
      split
      · rename_i same
        rw [get?_cons,get?_cons]
        simp only [same]
        split <;> rfl
      · rename_i different
        rw [get?_cons,get?_cons,ih]
        split
        · rename_i here
          rw [if_neg (here ▸ Ne.symm different)]
        · rfl

end

-- Keys in their order, with what stands under each, are all there is to a list of entries.
theorem ext_get? {entries others : Entries} (distinct : (entries.map (·.1)).Nodup)
    (keys : entries.map (·.1) = others.map (·.1)) (under : ∀ key, get? entries key = get? others key) :
    entries = others := by
  have distinct' : (others.map (·.1)).Nodup := keys ▸ distinct
  have count : entries.length = others.length := by simpa using congrArg List.length keys
  refine List.ext_getElem count fun i here there => ?_
  have named : entries[i].1 = others[i].1 := by
    have same := congrArg (fun (names : List String) => names[i]?) keys
    simpa [here,there] using same
  have found : get? entries entries[i].1 = some entries[i].2 := (get?_some distinct).mpr (List.getElem_mem here)
  have found' : get? others others[i].1 = some others[i].2 := (get?_some distinct').mpr (List.getElem_mem there)
  rw [under,named] at found
  exact Prod.ext named (Option.some.inj (found.symm.trans found'))

section
variable (pairs more : Entries)

theorem ofList_concat (pair : String × Json) : ofList (pairs ++ [pair]) = put (ofList pairs) pair.1 pair.2 :=
  List.foldl_append

theorem ofList_keys : (ofList pairs).map (·.1) = (pairs.map (·.1)).eraseDups := by
  induction pairs using List.reverseRecOn with
  | nil => rfl
  | append_singleton pairs pair ih =>
      rw [ofList_concat,put_keys,ih,List.map_append,List.map_singleton,eraseDups_concat]
      simp only [List.mem_eraseDups]

theorem ofList_distinct : ((ofList pairs).map (·.1)).Nodup :=
  ofList_keys pairs ▸ eraseDups_nodup _

-- The last one of a key decides.
theorem get?_ofList (key : String) : get? (ofList pairs) key = get? pairs.reverse key := by
  induction pairs using List.reverseRecOn with
  | nil => rfl
  | append_singleton pairs pair ih =>
      rw [ofList_concat,get?_put,ih,List.reverse_concat,get?_cons]

theorem get?_ofList_reverse (key : String) : get? (ofList pairs).reverse key = get? pairs.reverse key := by
  rw [← get?_ofList pairs]
  exact (get?_perm (ofList_distinct pairs) (List.reverse_perm _).symm key).symm

-- What was made into entries before counts like the pairs it was made of.
theorem ofList_earlier : ofList (ofList pairs ++ more) = ofList (pairs ++ more) := by
  refine ext_get? (ofList_distinct _) ?_ fun key => ?_
  · rw [ofList_keys,ofList_keys,List.map_append,List.map_append,ofList_keys,eraseDups_earlier]
  · rw [get?_ofList,get?_ofList,List.reverse_append,List.reverse_append,get?_append,get?_append,get?_ofList_reverse]

theorem ofList_later : ofList (pairs ++ ofList more) = ofList (pairs ++ more) := by
  refine ext_get? (ofList_distinct _) ?_ fun key => ?_
  · rw [ofList_keys,ofList_keys,List.map_append,List.map_append,ofList_keys,eraseDups_later]
  · rw [get?_ofList,get?_ofList,List.reverse_append,List.reverse_append,get?_append,get?_append,get?_ofList_reverse]

end
end Entries
end JsonQuery
