import JsonQuery.Proofs.Json.WellFormed

namespace JsonQuery
open Number

theorem Number.Binary64.ofRatio_number (negative : Bool) (num den : Nat) :
    Binary64.ofRatio negative num den ≠ .nan := by
  unfold Binary64.ofRatio
  extract_lets units
  split <;> exact nofun

-- Not-a-number is the only one without a place on the line, and no document holds it.
theorem Numeric.WellFormed.placed {n : Numeric} (formed : n.WellFormed) :
    ∃ place, n.toBinary64.place? = some place := by
  have number : n.toBinary64 ≠ .nan := by
    cases n with
    | int n =>
        simp only [Numeric.toBinary64,Binary64.ofInt]
        exact Binary64.ofRatio_number _ _ _
    | float x =>
        rintro rfl
        cases formed
  cases x : n.toBinary64 with
  | nan => exact absurd x number
  | infinite negative => exact ⟨_,rfl⟩
  | finite negative units fits => exact ⟨_,rfl⟩

namespace Json

-- Ordered, and not the later one.
def Below (v w : Json) : Prop := ∃ o, compare? v w = some o ∧ o.isLE = true

-- A total preorder: any two are ordered, alike from either side, and so is one that is compared
-- with itself.
structure Preordered (values : List Json) : Prop where
  answered : ∀ v ∈ values, ∀ w ∈ values, ∃ o, compare? v w = some o ∧ compare? w v = some o.swap
  reflexive : ∀ v ∈ values, compare? v v = some .eq
  transitive : ∀ u ∈ values, ∀ v ∈ values, ∀ w ∈ values, Below u v → Below v w → Below u w

-- Nothing is lost, made or changed, the keys never fall, and whatever has the key of an item
-- stands in the order it came in.
structure StablySorted (key : α → Json) (items sorted : List α) : Prop where
  kept : sorted.Perm items
  rising : sorted.Pairwise fun x y => Below (key x) (key y)
  stable : ∀ x ∈ items, sorted.filter (fun y => compare? (key x) (key y) = some .eq) =
    items.filter fun y => compare? (key x) (key y) = some .eq

namespace Preordered
section
variable {values : List Json}

-- Any order in which the values have a rank.
theorem of_rank [Ord β] [Std.TransOrd β] (rank : Json → β)
    (ranked : ∀ v ∈ values, ∀ w ∈ values, compare? v w = some (compare (rank v) (rank w))) :
    Preordered values := by
  have below : ∀ v ∈ values, ∀ w ∈ values, Below v w ↔ (compare (rank v) (rank w)).isLE = true := by
    intro v left w right
    simp [Below,ranked v left w right]
  refine ⟨fun v left w right => ⟨_,ranked v left w right,?_⟩,fun v present => ?_,?_⟩
  · rw [ranked w right v left,Std.OrientedOrd.eq_swap]
  · rw [ranked v present v present,Std.ReflOrd.compare_self]
  · intro u first v second w third before after
    rw [below u first v second] at before
    rw [below v second w third] at after
    exact (below u first w third).mpr (Std.TransOrd.isLE_trans before after)

theorem of_kind {kind : Kind} (formed : ∀ v ∈ values, v.WellFormed) (comparable : kind = .number ∨ kind = .string)
    (same : ∀ v ∈ values, v.kind = kind) : Preordered values := by
  rcases comparable with rfl | rfl
  · refine .of_rank (fun v => (v.asNumber?.bind Binary64.place?).getD 0) fun v left w right => ?_
    have first := same v left
    have second := same w right
    cases v <;> cases first
    cases w <;> cases second
    rename_i m n
    cases formed _ left with | number fits => ?_
    cases formed _ right with | number fits' => ?_
    obtain ⟨i,here⟩ := fits.placed
    obtain ⟨j,there⟩ := fits'.placed
    simp [compare?,Binary64.compare?,asNumber?,here,there]
  · refine .of_rank (fun v => v.asString?.getD "") fun v left w right => ?_
    have first := same v left
    have second := same w right
    cases v <;> cases first
    cases w <;> cases second
    rfl

theorem between {u v w : Json} (ordered : Preordered values) (first : u ∈ values) (second : v ∈ values)
    (third : w ∈ values) (one : compare? u v = some .eq) (other : compare? u w = some .eq) : Below v w := by
  obtain ⟨o,here,back⟩ := ordered.answered u first v second
  cases one.symm.trans here
  exact ordered.transitive v second u first w third ⟨_,back,rfl⟩ ⟨_,other,rfl⟩

end
end Preordered

theorem notAfter_iff {v w : Json} (answered : ∃ o, compare? v w = some o ∧ compare? w v = some o.swap) :
    notAfter v w = true ↔ Below v w := by
  obtain ⟨o,here,_⟩ := answered
  cases o <;> simp [notAfter,Below,here]

section
variable {key : α → Json} {items : List α}

theorem sortOn_map (f : β → α) (items : List β) :
    sortOn key (items.map f) = (sortOn (fun x => key (f x)) items).map f := by
  unfold sortOn
  exact (List.map_mergeSort (f := f) fun _ _ _ _ => rfl).symm

-- Only among the items is the comparison total and transitive, so it is looked at on them alone.
def memberBefore (key : α → Json) (items : List α) (x y : {x // x ∈ items}) : Bool :=
  notAfter (key x) (key y)

theorem sortOn_members : (items.attach.mergeSort (memberBefore key items)).map Subtype.val = sortOn key items := by
  have same := List.map_mergeSort (r := memberBefore key items) (s := fun x y => notAfter (key x) (key y))
    (f := Subtype.val) (l := items.attach) fun _ _ _ _ => rfl
  rwa [List.attach_map_subtype_val] at same

section
variable (ordered : Preordered (items.map key))
include ordered

theorem memberBefore_iff (x y : {x // x ∈ items}) : memberBefore key items x y = true ↔ Below (key x) (key y) :=
  notAfter_iff (ordered.answered _ (List.mem_map_of_mem x.property) _ (List.mem_map_of_mem y.property))

theorem memberBefore_trans (x y z : {x // x ∈ items}) (first : memberBefore key items x y = true)
    (second : memberBefore key items y z = true) : memberBefore key items x z = true := by
  rw [memberBefore_iff ordered] at *
  exact ordered.transitive _ (List.mem_map_of_mem x.property) _ (List.mem_map_of_mem y.property) _
    (List.mem_map_of_mem z.property) first second

theorem memberBefore_total (x y : {x // x ∈ items}) :
    (memberBefore key items x y || memberBefore key items y x) = true := by
  obtain ⟨o,here,there⟩ :=
    ordered.answered _ (List.mem_map_of_mem x.property) _ (List.mem_map_of_mem y.property)
  cases o <;> simp [memberBefore,notAfter,here,there]

theorem sortOn_rising : (sortOn key items).Pairwise fun x y => Below (key x) (key y) := by
  rw [← sortOn_members,List.pairwise_map]
  have rising := List.pairwise_mergeSort (memberBefore_trans ordered) (memberBefore_total ordered) items.attach
  exact rising.imp fun first => (memberBefore_iff ordered _ _).mp first

-- What ties with one item is in order as it came, so sorting finds it in place.
theorem sortOn_tied (present : x ∈ items) :
    (items.filter fun y => compare? (key x) (key y) = some .eq).Sublist (sortOn key items) := by
  let ties (y : α) : Bool := compare? (key x) (key y) = some .eq
  have tied : (items.attach.filter (ties ∘ Subtype.val)).Pairwise fun y z => memberBefore key items y z = true := by
    refine List.pairwise_of_forall_mem_list fun y first z second => ?_
    have one : compare? (key x) (key y) = some .eq := by simpa [ties] using (List.mem_filter.mp first).2
    have other : compare? (key x) (key z) = some .eq := by simpa [ties] using (List.mem_filter.mp second).2
    exact (memberBefore_iff ordered y z).mpr (ordered.between (List.mem_map_of_mem present)
      (List.mem_map_of_mem y.property) (List.mem_map_of_mem z.property) one other)
  have inside := (List.sublist_mergeSort (memberBefore_trans ordered) (memberBefore_total ordered) tied
    List.filter_sublist).map Subtype.val
  rwa [sortOn_members,← List.filter_map,List.attach_map_subtype_val] at inside

theorem sortOn_stable : StablySorted key items (sortOn key items) := by
  have kept : (sortOn key items).Perm items := List.mergeSort_perm items _
  refine ⟨kept,sortOn_rising ordered,fun x present => ?_⟩
  have inside := (sortOn_tied ordered present).filter fun y => compare? (key x) (key y) = some .eq
  rw [List.filter_filter] at inside
  simp only [Bool.and_self] at inside
  exact (inside.eq_of_length (kept.filter _).length_eq.symm).symm

end
end
end Json
end JsonQuery
