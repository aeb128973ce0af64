import JsonQuery.Proofs.Json.StableSorting

namespace JsonQuery.Json

theorem swap_other {o : Ordering} (strict : o ≠ .eq) : o.swap ≠ o := by
  cases o with
  | eq => exact absurd rfl strict
  | lt | gt => exact nofun

theorem Below.not_gt {v w : Json} (below : Below v w) : compare? v w ≠ some .gt := by
  obtain ⟨o,given,small⟩ := below
  intro greater
  cases given.symm.trans greater
  cases small

namespace Preordered

theorem mono {values some : List Json} (ordered : Preordered values) (inside : some ⊆ values) : Preordered some :=
  ⟨fun v left w right => ordered.answered v (inside left) w (inside right),
    fun v present => ordered.reflexive v (inside present),
    fun u first v second w third => ordered.transitive u (inside first) v (inside second) w (inside third)⟩

section
variable {values : List Json} {wins : Ordering} {u v w : Json} (ordered : Preordered values)
  (first : u ∈ values) (second : v ∈ values)
include ordered first second

theorem below_of_not_gt (short : compare? u v ≠ some .gt) : Below u v := by
  obtain ⟨o,here,_⟩ := ordered.answered u first v second
  refine ⟨o,here,?_⟩
  cases o with
  | gt => exact absurd here short
  | _ => rfl

theorem below_of_not_lt (short : compare? u v ≠ some .lt) : Below v u := by
  obtain ⟨o,here,back⟩ := ordered.answered u first v second
  refine ⟨o.swap,back,?_⟩
  cases o with
  | lt => exact absurd here short
  | _ => rfl

theorem swapped (given : compare? u v = some o) : compare? v u = some o.swap := by
  obtain ⟨_,here,back⟩ := ordered.answered u first v second
  cases here.symm.trans given
  exact back

theorem not_lt (below : Below u v) : compare? v u ≠ some .lt :=
  fun less => below.not_gt (ordered.swapped second first less)

-- Two of which neither beats the other tie.
theorem tied (strict : wins ≠ .eq) (one : compare? u v ≠ some wins) (other : compare? v u ≠ some wins) :
    compare? u v = some .eq := by
  obtain ⟨o,here,back⟩ := ordered.answered u first v second
  rw [here] at one
  rw [back] at other
  rw [here]
  cases o with
  | eq => rfl
  | lt | gt => cases wins <;> simp_all

-- Where one beats another, no third escapes both.
theorem beats_third (third : w ∈ values) (strict : wins ≠ .eq) (beats : compare? u v = some wins) :
    compare? u w = some wins ∨ compare? w v = some wins := by
  by_cases left : compare? u w = some wins
  · exact .inl left
  by_cases right : compare? w v = some wins
  · exact .inr right
  cases wins with
  | eq => exact absurd rfl strict
  | lt =>
      have behind := ordered.transitive v second w third u first
        (ordered.below_of_not_lt third second right) (ordered.below_of_not_lt first third left)
      exact absurd beats (ordered.not_lt second first behind)
  | gt =>
      have before := ordered.transitive u first w third v second
        (ordered.below_of_not_gt first third left) (ordered.below_of_not_gt third second right)
      exact absurd beats before.not_gt

end
end Preordered

section
variable {wins : Ordering} {key : α → Json} {items : List α}

-- It beats whatever comes before it and nothing behind beats it.
def Leads (wins : Ordering) (key : α → Json) (items : List α) (best : α) : Prop :=
  ∃ before after, items = before ++ best :: after ∧
    (∀ x ∈ before, compare? (key best) (key x) = some wins) ∧
    ∀ x ∈ after, compare? (key x) (key best) ≠ some wins

theorem Leads.mem (leads : Leads wins key items best) : best ∈ items := by
  obtain ⟨before,after,rfl,_⟩ := leads
  exact List.mem_append_right before List.mem_cons_self

-- What is beaten cannot beat the one that leads.
theorem Leads.unbeaten (ordered : Preordered (items.map key)) (strict : wins ≠ .eq)
    (leads : Leads wins key items best) : ∀ x ∈ items, compare? (key x) (key best) ≠ some wins := by
  have present := leads.mem
  obtain ⟨before,after,rfl,beaten,short⟩ := leads
  intro x inside beats
  have back := ordered.swapped (List.mem_map_of_mem inside) (List.mem_map_of_mem present) beats
  rcases List.mem_append.mp inside with first | inside
  · exact swap_other strict (Option.some.inj (back.symm.trans (beaten x first)))
  · rcases List.mem_cons.mp inside with rfl | later
    · have self := ordered.reflexive (key x) (List.mem_map_of_mem present)
      exact strict (Option.some.inj (beats.symm.trans self))
    · exact short x later beats

theorem challenge_leads {passed : List α} {best item : α} (ordered : Preordered ((passed ++ [item]).map key))
    (strict : wins ≠ .eq) (leads : Leads wins key passed best) :
    ∃ next, challenge wins key (some best) item = some next ∧ Leads wins key (passed ++ [item]) next := by
  have inside {x : α} (present : x ∈ passed) : key x ∈ (passed ++ [item]).map key :=
    List.mem_map_of_mem (List.mem_append_left _ present)
  have new : key item ∈ (passed ++ [item]).map key :=
    List.mem_map_of_mem (List.mem_append_right _ List.mem_cons_self)
  have front := ordered.mono (List.map_subset key (List.subset_append_left passed [item]))
  have unbeaten := leads.unbeaten front strict
  unfold challenge
  dsimp only
  split
  · rename_i beats
    refine ⟨item,rfl,passed,[],rfl,fun x present => ?_,nofun⟩
    have either := ordered.beats_third new (inside leads.mem) (inside present) strict beats
    exact either.resolve_right (unbeaten x present)
  · rename_i short
    obtain ⟨before,after,rfl,beaten,behind⟩ := leads
    refine ⟨best,rfl,before,after ++ [item],by simp,beaten,fun x present => ?_⟩
    rcases List.mem_append.mp present with old | here
    · exact behind x old
    · exact List.mem_singleton.mp here ▸ short

theorem foldl_leads (passed rest : List α) {best : α} (ordered : Preordered ((passed ++ rest).map key))
    (strict : wins ≠ .eq) (leads : Leads wins key passed best) :
    ∃ last, rest.foldl (challenge wins key) (some best) = some last ∧ Leads wins key (passed ++ rest) last := by
  induction rest generalizing passed best with
  | nil => exact ⟨best,rfl,by rwa [List.append_nil]⟩
  | cons item rest ih =>
      rw [List.append_cons] at ordered ⊢
      have front := ordered.mono (List.map_subset key (List.subset_append_left (passed ++ [item]) rest))
      obtain ⟨next,met,leads⟩ := challenge_leads front strict leads
      rw [List.foldl_cons,met]
      exact ih (passed ++ [item]) ordered leads

theorem extremeOn_leads (ordered : Preordered (items.map key)) (strict : wins ≠ .eq) (filled : items ≠ []) :
    ∃ best, extremeOn wins key items = some best ∧ Leads wins key items best := by
  cases items with
  | nil => exact absurd rfl filled
  | cons item rest => exact foldl_leads [item] rest ordered strict ⟨[],[],rfl,nofun,nofun⟩

-- Among those that tie with one that nothing beats it takes the first.
theorem extremeOn_tied (ordered : Preordered (items.map key)) (strict : wins ≠ .eq) {last : α} (present : last ∈ items)
    (unbeaten : ∀ x ∈ items, compare? (key x) (key last) ≠ some wins) :
    extremeOn wins key items = items.find? fun x => compare? (key last) (key x) = some .eq := by
  have inside {x : α} (here : x ∈ items) : key x ∈ items.map key := List.mem_map_of_mem here
  obtain ⟨best,found,leads⟩ := extremeOn_leads ordered strict (List.ne_nil_of_mem present)
  have here := leads.mem
  have tied := ordered.tied (inside present) (inside here) strict (leads.unbeaten ordered strict last present)
    (unbeaten best here)
  obtain ⟨before,after,split,beaten,_⟩ := leads
  have apart : ∀ x ∈ before, compare? (key last) (key x) ≠ some .eq := by
    intro x earlier equal
    have among : x ∈ items := split ▸ List.mem_append_left _ earlier
    rcases ordered.beats_third (inside here) (inside among) (inside present) strict (beaten x earlier) with beats | beats
    · exact unbeaten best here beats
    · exact strict (Option.some.inj (beats.symm.trans equal))
  rw [found]
  symm
  rw [List.find?_eq_some_iff_append]
  refine ⟨decide_eq_true tied,before,after,split,fun x earlier => ?_⟩
  rw [decide_eq_false (apart x earlier)]
  rfl

section
variable (ordered : Preordered (items.map key))
include ordered

theorem extremeOn_least : extremeOn .lt key items = (sortOn key items).head? := by
  have stable := sortOn_stable ordered
  cases sorted : sortOn key items with
  | nil =>
      rw [sorted] at stable
      rw [stable.kept.symm.eq_nil]
      rfl
  | cons first others =>
      rw [sorted] at stable
      have present : first ∈ items := stable.kept.mem_iff.mp List.mem_cons_self
      have unbeaten : ∀ x ∈ items, compare? (key x) (key first) ≠ some .lt := by
        intro x inside
        apply ordered.not_lt (List.mem_map_of_mem present) (List.mem_map_of_mem inside)
        rcases List.mem_cons.mp (stable.kept.mem_iff.mpr inside) with rfl | later
        · exact ⟨.eq,ordered.reflexive _ (List.mem_map_of_mem present),rfl⟩
        · exact List.rel_of_pairwise_cons stable.rising later
      have self : compare? (key first) (key first) = some .eq := ordered.reflexive _ (List.mem_map_of_mem present)
      rw [extremeOn_tied ordered (show Ordering.lt ≠ .eq by decide) present unbeaten,← List.head?_filter,
        ← stable.stable first present]
      simp only [List.filter_cons,self,decide_true,if_true,List.head?_cons]

theorem extremeOn_greatest (ends : (sortOn key items).getLast? = some last) :
    extremeOn .gt key items = items.find? fun x => compare? (key last) (key x) = some .eq := by
  have stable := sortOn_stable ordered
  obtain ⟨front,sorted⟩ := List.getLast?_eq_some_iff.mp ends
  rw [sorted] at stable
  have present : last ∈ items := stable.kept.mem_iff.mp (List.mem_append_right _ List.mem_cons_self)
  refine extremeOn_tied ordered (by decide) present fun x inside => Below.not_gt ?_
  rcases List.mem_append.mp (stable.kept.mem_iff.mpr inside) with earlier | here
  · exact (List.pairwise_append.mp stable.rising).2.2 x earlier last List.mem_cons_self
  · cases List.mem_singleton.mp here
    exact ⟨.eq,ordered.reflexive _ (List.mem_map_of_mem present),rfl⟩

end

-- The first of the items that ties with the one that stands last in order.
inductive LikeLast (key : α → Json) (items sorted : List α) : Option α → Prop where
  | nothing (empty : items = []) : LikeLast key items sorted none
  | found (ends : sorted.getLast? = some last)
      (first : items.find? (fun x => compare? (key last) (key x) = some .eq) = some best) :
      LikeLast key items sorted (some best)

theorem extremeOn_likeLast (ordered : Preordered (items.map key)) :
    LikeLast key items (sortOn key items) (extremeOn .gt key items) := by
  cases ends : (sortOn key items).getLast? with
  | none =>
      have kept := (sortOn_stable ordered).kept
      rw [List.getLast?_eq_none_iff.mp ends] at kept
      obtain rfl := kept.symm.eq_nil
      exact .nothing rfl
  | some last =>
      have present : last ∈ items := mem_sortOn.mp (List.mem_of_getLast? ends)
      obtain ⟨best,found,_⟩ :=
        extremeOn_leads ordered (show Ordering.gt ≠ .eq by decide) (List.ne_nil_of_mem present)
      rw [found]
      exact .found ends ((extremeOn_greatest ordered ends).symm.trans found)

theorem extremeOn_map (f : β → α) (items : List β) :
    extremeOn wins key (items.map f) = (extremeOn wins (fun x => key (f x)) items).map f := by
  unfold extremeOn
  rw [List.foldl_map]
  have step (best : Option β) (item : β) : challenge wins key (best.map f) (f item) =
      (challenge wins (fun x => key (f x)) best item).map f := by
    cases best with
    | none => rfl
    | some holder =>
        simp only [challenge,Option.map_some]
        split <;> rfl
  change items.foldl (fun best item => challenge wins key best (f item)) (Option.map f none) = _
  exact List.foldl_hom (Option.map f) step

end

-- An item that carries its key is found by it.
section
variable (key : α → Json) (items : List α)

theorem extremeOn_paired (wins : Ordering) :
    (extremeOn wins (·.1) (items.map fun x => (key x,x))).map (·.2) = extremeOn wins key items := by
  rw [extremeOn_map,Option.map_map]
  exact Option.map_id_apply

theorem sortOn_paired : (sortOn (·.1) (items.map fun x => (key x,x))).map (·.2) = sortOn key items := by
  rw [sortOn_map,List.map_map]
  exact List.map_id _

end
end JsonQuery.Json
