import Mathlib.Data.List.Sort
import JsonQuery.Evaluation

namespace JsonQuery
open Evaluation

-- So many steps further on.
def Ahead (step position i : Int) : Prop := ∃ count : Nat, i = position + count * step

section
variable {stop step position i : Int}

theorem ahead_iff : Ahead step position i ↔ i = position ∨ Ahead step (position + step) i := by
  have further (count : Nat) : position + (count + 1 : Nat) * step = position + step + count * step := by
    rw [Int.natCast_succ,Int.add_mul]
    omega
  constructor
  · rintro ⟨count,rfl⟩
    cases count with
    | zero => exact .inl (by simp)
    | succ count => exact .inr ⟨count,further count⟩
  · rintro (rfl | ⟨count,rfl⟩)
    · exact ⟨0,by simp⟩
    · exact ⟨count + 1,(further count).symm⟩

-- What lies on the side the steps lead to, a whole number of them away.
theorem ahead_iff_dvd (moves : step ≠ 0) : Ahead step position i ↔
    step ∣ i - position ∧ (0 < step → position ≤ i) ∧ (step < 0 → i ≤ position) := by
  constructor
  · rintro ⟨count,rfl⟩
    refine ⟨⟨count,by rw [Int.mul_comm]; omega⟩,fun up => ?_,fun down => ?_⟩
    · have grown := Int.mul_nonneg (Int.natCast_nonneg count) (Int.le_of_lt up)
      omega
    · have fallen := Int.mul_nonpos_of_nonneg_of_nonpos (Int.natCast_nonneg count) (Int.le_of_lt down)
      omega
  · rintro ⟨⟨count,apart⟩,up,down⟩
    have forward : 0 ≤ count := by
      rcases Int.lt_or_gt_of_ne moves with falling | rising
      · exact Int.not_lt.mp fun negative => by
          have := Int.mul_pos_of_neg_of_neg falling negative
          omega
      · exact Int.not_lt.mp fun negative => by
          have := Int.mul_neg_of_pos_of_neg rising negative
          omega
    refine ⟨count.toNat,?_⟩
    rw [Int.toNat_of_nonneg forward,Int.mul_comm]
    omega

theorem Onward.moves (onward : Onward stop step i) : step ≠ 0 := by
  unfold Onward at onward
  omega

theorem Onward.earlier (onward : Onward stop step i) (ahead : Ahead step position i) :
    Onward stop step position := by
  obtain ⟨-,side⟩ := (ahead_iff_dvd onward.moves).mp ahead
  unfold Onward at *
  omega

-- What lies between two words is one.
theorem Onward.word (onward : Onward stop step (position + step)) (here : IsWord position)
    (ends : IsWord stop) : IsWord (position + step) := by
  unfold Onward at onward
  unfold IsWord at *
  omega

-- Where the sum would be no word nothing is left to visit, so the walk misses nothing.
theorem mem_walk (here : IsWord position) (ends : IsWord stop) :
    i ∈ walk stop step position ↔ Ahead step position i ∧ Onward stop step i := by
  fun_induction walk stop step position with
  | case1 position onward ih =>
      rw [List.mem_cons,ahead_iff]
      split
      · rename_i word
        rw [ih word]
        constructor
        · rintro (rfl | later)
          · exact ⟨.inl rfl,onward⟩
          · exact ⟨.inr later.1,later.2⟩
        · rintro ⟨rfl | ahead,later⟩
          · exact .inl rfl
          · exact .inr ⟨ahead,later⟩
      · rename_i beyond
        constructor
        · rintro (rfl | ⟨⟨⟩⟩)
          exact ⟨.inl rfl,onward⟩
        · rintro ⟨rfl | ahead,later⟩
          · exact .inl rfl
          · exact absurd ((later.earlier ahead).word here ends) beyond
  | case2 position ended =>
      refine ⟨nofun,?_⟩
      rintro ⟨ahead,later⟩
      exact absurd (later.earlier ahead) ended

theorem walk_ahead (visited : i ∈ walk stop step position) : Ahead step position i := by
  fun_induction walk stop step position with
  | case1 position onward ih =>
      rw [ahead_iff]
      rcases List.mem_cons.mp visited with rfl | later
      · exact .inl rfl
      · split at later
        · exact .inr (ih later)
        · cases later
  | case2 => cases visited

-- No position is visited twice, and each lies behind those before it.
theorem walk_ordered :
    (walk stop step position).Pairwise fun earlier later => Ahead step (earlier + step) later := by
  fun_induction walk stop step position with
  | case1 position onward ih =>
      split
      · exact List.pairwise_cons.mpr ⟨fun later visited => walk_ahead visited,ih⟩
      · exact List.pairwise_singleton _ _
  | case2 => exact .nil

end

namespace Slice

def stride (s : Slice) : Int := s.step.getD 1

-- Between which positions its ends are held.
def lowest (s : Slice) : Int := if 0 < s.stride then 0 else -1

def highest (s : Slice) (length : Int) : Int := if 0 < s.stride then length else length - 1

-- A bound as it is meant: from the end on where negative, and no further than the array goes.
def resolve (s : Slice) (length bound : Int) : Int :=
  max s.lowest (min (s.highest length) (if bound < 0 then bound + length else bound))

def first (s : Slice) (length : Int) : Int :=
  (s.start.map (s.resolve length)).getD (if 0 < s.stride then 0 else length - 1)

def last (s : Slice) (length : Int) : Int :=
  (s.stop.map (s.resolve length)).getD (if 0 < s.stride then length else -1)

-- The positions a slice is to select, without a word about how they are reached.
def Selects (s : Slice) (length i : Int) : Prop :=
  i % s.stride.natAbs = s.first length % s.stride.natAbs ∧
    if 0 < s.stride then s.first length ≤ i ∧ i < s.last length
    else s.last length < i ∧ i ≤ s.first length

instance (s : Slice) (length i : Int) : Decidable (s.Selects length i) :=
  inferInstanceAs (Decidable (_ ∧ _))

def positions (s : Slice) (length : Nat) : List (Fin length) :=
  let selected := (List.finRange length).filter fun i : Fin length => s.Selects length (i : Nat)
  if 0 < s.stride then selected else selected.reverse

section
variable {s : Slice} {length : Nat} {i : Int}

theorem clampBound_resolve (moves : s.stride ≠ 0) (bound : Int) :
    clampBound length s.stride bound = s.resolve length bound := by
  unfold clampBound resolve lowest highest
  split <;> split <;> omega

theorem sliceBounds_eq (moves : s.stride ≠ 0) :
    sliceBounds length s.start s.stop s.stride = (s.first length,s.last length) := by
  unfold sliceBounds first last
  refine Prod.ext ?_ ?_
  · cases s.start with
    | none => dsimp; split <;> split <;> omega
    | some bound => exact clampBound_resolve moves bound
  · cases s.stop with
    | none => dsimp; split <;> split <;> omega
    | some bound => exact clampBound_resolve moves bound

theorem resolve_within (bound : Option Int) {absent : Int}
    (within : s.lowest ≤ absent ∧ absent ≤ s.highest length) :
    s.lowest ≤ (bound.map (s.resolve length)).getD absent ∧
      (bound.map (s.resolve length)).getD absent ≤ s.highest length := by
  cases bound with
  | none => exact within
  | some bound =>
      dsimp [resolve]
      omega

theorem first_within (s : Slice) (length : Nat) :
    s.lowest ≤ s.first length ∧ s.first length ≤ s.highest length := by
  refine resolve_within s.start ?_
  unfold lowest highest
  split <;> omega

theorem last_within (s : Slice) (length : Nat) :
    s.lowest ≤ s.last length ∧ s.last length ≤ s.highest length := by
  refine resolve_within s.stop ?_
  unfold lowest highest
  split <;> omega

-- Both ends are held inside, and so is all that is selected between them.
theorem Selects.inside (selected : s.Selects length i) : 0 ≤ i ∧ i < length := by
  have starts := first_within s length
  have ends := last_within s length
  have between := selected.2
  unfold lowest highest at starts ends
  split at between <;> simp_all only [if_true,if_false] <;> omega

theorem word_of_within (held : IsWord length) (within : s.lowest ≤ i ∧ i ≤ s.highest length) : IsWord i := by
  unfold lowest highest at within
  unfold IsWord at *
  omega

-- What the walk visits is what was to be selected.
theorem selects_iff (moves : s.stride ≠ 0) : s.Selects length i ↔
    Ahead s.stride (s.first length) i ∧ Onward (s.last length) s.stride i := by
  have apart : i % s.stride.natAbs = s.first length % s.stride.natAbs ↔ s.stride ∣ i - s.first length := by
    rw [← Int.natAbs_dvd]
    exact Int.emod_eq_emod_iff_emod_sub_eq_zero.trans Int.dvd_iff_emod_eq_zero.symm
  rw [ahead_iff_dvd moves]
  unfold Selects Onward
  rw [apart]
  split <;> omega

theorem mem_walk_iff (moves : s.stride ≠ 0) (held : IsWord length) :
    i ∈ walk (s.last length) s.stride (s.first length) ↔ s.Selects length i := by
  rw [selects_iff moves]
  exact mem_walk (word_of_within held (first_within s length)) (word_of_within held (last_within s length))

theorem mem_positions {position : Fin length} :
    position ∈ s.positions length ↔ s.Selects length (position : Nat) := by
  unfold positions
  split <;> simp

theorem walk_eq_positions (moves : s.stride ≠ 0) (held : IsWord length) :
    walk (s.last length) s.stride (s.first length) =
      (s.positions length).map fun position : Fin length => ((position : Nat) : Int) := by
  have same : ∀ i, i ∈ walk (s.last length) s.stride (s.first length) ↔
      i ∈ (s.positions length).map fun position : Fin length => ((position : Nat) : Int) := by
    intro i
    rw [mem_walk_iff moves held,List.mem_map]
    constructor
    · intro selected
      obtain ⟨within,beyond⟩ := selected.inside
      lift i to Nat using within
      exact ⟨⟨i,by omega⟩,mem_positions.mpr selected,rfl⟩
    · rintro ⟨position,present,rfl⟩
      exact mem_positions.mp present
  have ordered := (List.pairwise_lt_finRange length).filter fun i : Fin length => s.Selects length (i : Nat)
  rcases Int.lt_or_gt_of_ne moves with falling | rising
  · refine List.Pairwise.eq_of_mem_iff (r := (· > ·)) (walk_ordered.imp fun ahead => ?_) ?_ same
    · have := ((ahead_iff_dvd moves).mp ahead).2.2 falling
      omega
    · unfold positions
      rw [if_neg (by omega),List.map_reverse,List.pairwise_reverse]
      exact ordered.map _ fun _ _ before => Int.ofNat_lt.mpr before
  · refine List.Pairwise.eq_of_mem_iff (r := (· < ·)) (walk_ordered.imp fun ahead => ?_) ?_ same
    · have := ((ahead_iff_dvd moves).mp ahead).2.1 rising
      omega
    · unfold positions
      rw [if_pos rising]
      exact ordered.map _ fun _ _ before => Int.ofNat_lt.mpr before

-- A stop written beyond the front is the place before the first element, and counts no further back.
example : (⟨some (-1),some (-9),some (-2)⟩ : Slice).positions 5 = [4,2,0] := by decide

end
end Slice

theorem asIndex_inside {i : Int} (word : IsWord i) (inside : 0 ≤ i) : asIndex i = i.toNat := by
  unfold asIndex IsWord at *
  omega

namespace Json

theorem sliceElements_eq (elements : List Json) (s : Slice) (moves : s.stride ≠ 0) (held : IsWord elements.length) :
    sliceElements elements s s.stride = (s.positions elements.length).map elements.get := by
  unfold sliceElements
  rw [Slice.sliceBounds_eq moves]
  dsimp only
  rw [Slice.walk_eq_positions moves held,List.filterMap_map,← List.filterMap_eq_map]
  refine List.filterMap_congr fun position present => ?_
  have word : IsWord ((position : Nat) : Int) := by
    have := position.isLt
    unfold IsWord at *
    omega
  rw [Function.comp_apply,asIndex_inside word (by omega)]
  simp

end Json

-- No array outgrows the words its positions are counted in. Beside the result: where the walk
-- starts and stops, which positions it visits, that each is found, and that a sum which would be
-- no word comes only where the walk is over anyway.
theorem Expr.eval_slice (setting : Setting) (s : Slice) (elements : List Json) (scope : Scope Json)
    (moves : s.stride ≠ 0) (held : IsWord elements.length) :
    (Expr.slice s).eval setting (.array elements) scope =
        .ok (.array ((s.positions elements.length).map elements.get)) ∧
      sliceBounds elements.length s.start s.stop s.stride = (s.first elements.length,s.last elements.length) ∧
      walk (s.last elements.length) s.stride (s.first elements.length) =
        (s.positions elements.length).map (fun position : Fin elements.length => ((position : Nat) : Int)) ∧
      (∀ i ∈ walk (s.last elements.length) s.stride (s.first elements.length),
        (0 ≤ i ∧ i < elements.length) ∧ elements[asIndex i]?.isSome ∧
          (¬IsWord (i + s.stride) → ¬Onward (s.last elements.length) s.stride (i + s.stride))) ∧
      (∀ bound, IsWord bound → bound < 0 → IsWord (bound + elements.length)) ∧
      IsWord ((elements.length : Int) - 1) := by
  have ends := Slice.word_of_within held (s.last_within elements.length)
  refine ⟨?_,Slice.sliceBounds_eq moves,Slice.walk_eq_positions moves held,fun i visited => ?_,?_,?_⟩
  · have sliced := Json.sliceElements_eq elements s moves held
    unfold Slice.stride at moves sliced
    simp only [Expr.eval,sliceValue,if_neg moves,sliced]
  · have inside := ((Slice.mem_walk_iff moves held).mp visited).inside
    have word : IsWord i := by
      unfold IsWord at *
      omega
    refine ⟨inside,?_,fun beyond onward => beyond (onward.word word ends)⟩
    have found : i.toNat < elements.length := by omega
    simp [asIndex_inside word inside.1,found]
  · unfold IsWord at *
    omega
  · unfold IsWord at *
    omega

-- From the last position but one the greatest step leads to no word.
theorem Expr.eval_slice_greatest_step :
    let s : Slice := ⟨some (-2),none,some 0x7FFFFFFFFFFFFFFF⟩
    let elements : List Json := [.null,.bool true,.null]
    s.stride ≠ 0 ∧ IsWord elements.length ∧ ¬IsWord (1 + s.stride) ∧
      walk (s.last elements.length) s.stride (s.first elements.length) = [1] ∧
      (Expr.slice s).eval ⟨.empty,false,.null⟩ (.array elements) .empty = .ok (.array [.bool true]) := by
  intro s elements
  have moves : s.stride ≠ 0 := by decide
  have held : IsWord elements.length := by decide
  have selected : s.positions elements.length = [1] := by decide
  obtain ⟨sliced,-,visited,-⟩ := Expr.eval_slice ⟨.empty,false,.null⟩ s elements .empty moves held
  rw [selected] at sliced visited
  exact ⟨moves,held,by decide,visited,sliced⟩

end JsonQuery
