import Mathlib.Data.List.Perm.Subperm
import JsonQuery.Proofs.Json.Entries
import JsonQuery.Proofs.Json.StableSorting

namespace JsonQuery.Json
open Number

-- What is left of a value when a number counts by its place on the line, so that the zeros
-- coincide, and an object by what stands under every key.
inductive Datum where
  | null
  | bool (b : Bool)
  | number (place : Option Int)
  | string (s : String)
  | array (elements : List Datum)
  | object (under : String → Option Datum)

mutual
def datum : Json → Datum
  | .null => .null
  | .bool b => .bool b
  | .number n => .number n.toBinary64.place?
  | .string s => .string s
  | .array elements => .array (elementData elements)
  | .object entries => .object (entryData entries)
termination_by structural v => v

def elementData : List Json → List Datum
  | [] => []
  | v :: vs => v.datum :: elementData vs
termination_by structural vs => vs

def entryData : List (String × Json) → String → Option Datum
  | [], _ => none
  | (key, v) :: es, name => if key = name then some v.datum else entryData es name
termination_by structural es => es
end

-- One value in two spellings: at any depth the entries of an object may come in another order and
-- a number may be written as another of the same double.
inductive Respelled : Json → Json → Prop where
  | same (v : Json) : Respelled v v
  | number (equal : m.toBinary64.compare? n.toBinary64 = some .eq) : Respelled (.number m) (.number n)
  | array {vs ws : List Json} (count : vs.length = ws.length)
      (each : ∀ (i : Nat) v w, vs[i]? = some v → ws[i]? = some w → Respelled v w) : Respelled (.array vs) (.array ws)
  | object {es fs : List (String × Json)} (order : (es.map (·.1)).Perm (fs.map (·.1)))
      (each : ∀ key v w, (key,v) ∈ es → (key,w) ∈ fs → Respelled v w) : Respelled (.object es) (.object fs)

theorem elementData_map (vs : List Json) : elementData vs = vs.map datum := by
  induction vs with
  | nil => rfl
  | cons v vs ih => rw [elementData,ih,List.map_cons]

theorem entryData_get? (es : Entries) : entryData es = fun key => (Entries.get? es key).map datum := by
  induction es with
  | nil => rfl
  | cons entry rest ih =>
      funext key
      rw [entryData,ih,Entries.get?_cons]
      split <;> rfl

theorem equalElements_iff {xs ys : List Json} (count : xs.length = ys.length)
    (each : ∀ x ∈ xs, ∀ y ∈ ys, x.equals y = true ↔ x.datum = y.datum) :
    equalElements xs ys = true ↔ xs.map datum = ys.map datum := by
  induction xs generalizing ys with
  | nil =>
      obtain rfl := List.length_eq_zero_iff.mp count.symm
      exact ⟨fun _ => rfl,fun _ => rfl⟩
  | cons x xs ih =>
      cases ys with
      | nil => cases count
      | cons y ys =>
          have later := ih (Nat.succ.inj count) fun x inside y inside' =>
            each x (List.mem_cons_of_mem _ inside) y (List.mem_cons_of_mem _ inside')
          rw [equalElements,Bool.and_eq_true,each x List.mem_cons_self y List.mem_cons_self,later,List.map_cons,
            List.map_cons,List.cons.injEq]

theorem equalEntries_iff {xs ys : Entries} : equalEntries xs ys = true ↔
    ∀ entry ∈ xs, ∃ y, Entries.get? ys entry.1 = some y ∧ entry.2.equals y = true := by
  induction xs with
  | nil => exact ⟨fun _ => nofun,fun _ => rfl⟩
  | cons entry xs ih =>
      rw [equalEntries,Bool.and_eq_true,ih,List.forall_mem_cons]
      refine and_congr_left fun _ => ?_
      cases found : Entries.get? ys entry.1 with
      | none => simp
      | some y => simp

section
variable {es fs : Entries}

-- Keys that are all found on the other side, which has no more of them, leave none over there.
theorem keys_perm (distinct : (es.map (·.1)).Nodup) (count : es.length = fs.length)
    (found : ∀ entry ∈ es, ∃ v, Entries.get? fs entry.1 = some v) : (es.map (·.1)).Perm (fs.map (·.1)) := by
  have inside : es.map (·.1) ⊆ fs.map (·.1) := by
    intro key present
    obtain ⟨entry,member,rfl⟩ := List.mem_map.mp present
    obtain ⟨v,here⟩ := found entry member
    exact List.mem_map.mpr ⟨(entry.1,v),Entries.mem_of_get? here,rfl⟩
  apply (distinct.subperm inside).perm_of_length_le
  rw [List.length_map,List.length_map]
  exact Nat.le_of_eq count.symm

theorem entryData_perm (distinct : (fs.map (·.1)).Nodup) (order : (es.map (·.1)).Perm (fs.map (·.1)))
    (each : ∀ key v w, (key,v) ∈ es → (key,w) ∈ fs → v.datum = w.datum) : entryData es = entryData fs := by
  rw [entryData_get?,entryData_get?]
  funext key
  cases found : Entries.get? es key with
  | none =>
      have absent := fun present => Entries.get?_none.mp found (order.mem_iff.mpr present)
      rw [Entries.get?_none.mpr absent]
  | some v =>
      have here := Entries.mem_of_get? found
      obtain ⟨entry,there,rfl⟩ := List.mem_map.mp (order.mem_iff.mp (List.mem_map_of_mem here))
      rw [(Entries.get?_some distinct).mpr there,Option.map_some,Option.map_some,each _ _ _ here there]

theorem entryData_eq (distinct : (es.map (·.1)).Nodup) (distinct' : (fs.map (·.1)).Nodup) :
    entryData es = entryData fs ↔ es.length = fs.length ∧
      ∀ entry ∈ es, ∃ v, Entries.get? fs entry.1 = some v ∧ entry.2.datum = v.datum := by
  constructor
  · intro same
    rw [entryData_get?,entryData_get?] at same
    have under (key : String) := congrFun same key
    have order : (es.map (·.1)).Perm (fs.map (·.1)) := by
      refine (List.perm_ext_iff_of_nodup distinct distinct').mpr fun key => ?_
      rw [← not_iff_not,← Entries.get?_none,← Entries.get?_none,← Option.map_eq_none_iff,under key,
        Option.map_eq_none_iff]
    refine ⟨by simpa using order.length_eq,fun entry present => ?_⟩
    have here := under entry.1
    rw [(Entries.get?_some distinct).mpr present] at here
    obtain ⟨v,found,equal⟩ := Option.map_eq_some_iff.mp here.symm
    exact ⟨v,found,equal.symm⟩
  · rintro ⟨count,each⟩
    have order := keys_perm distinct count fun entry present => (each entry present).imp fun _ => And.left
    refine entryData_perm distinct' order fun key v w here there => ?_
    obtain ⟨other,found,equal⟩ := each (key,v) here
    cases ((Entries.get?_some distinct').mpr there).symm.trans found
    exact equal

end

theorem compare?_eq {m n : Numeric} (first : m.WellFormed) (second : n.WellFormed) :
    m.toBinary64.compare? n.toBinary64 = some .eq ↔ m.toBinary64.place? = n.toBinary64.place? := by
  obtain ⟨i,here⟩ := first.placed
  obtain ⟨j,there⟩ := second.placed
  simp [Binary64.compare?,here,there]

theorem equals_datum {v w : Json} (first : v.WellFormed) (second : w.WellFormed) :
    v.equals w = true ↔ v.datum = w.datum := by
  induction first generalizing w with
  | null => cases w <;> simp [equals,datum]
  | bool => cases w <;> simp [equals,datum]
  | number fits =>
      cases second with
      | number fits' => simp [equals,datum,compare?_eq fits fits']
      | _ => simp [equals,datum]
  | string => cases w <;> simp [equals,datum]
  | @array xs formed ih =>
      cases second with
      | @array ys formed' =>
          rw [equals,datum,datum,Datum.array.injEq,elementData_map,elementData_map,Bool.and_eq_true,beq_iff_eq]
          constructor
          · rintro ⟨count,equal⟩
            exact (equalElements_iff count fun x inside y inside' => ih x inside (formed' y inside')).mp equal
          · intro same
            have count : xs.length = ys.length := by simpa using congrArg List.length same
            exact ⟨count,(equalElements_iff count fun x inside y inside' => ih x inside (formed' y inside')).mpr same⟩
      | _ => simp [equals,datum]
  | @object xs distinct formed ih =>
      cases second with
      | @object ys distinct' formed' =>
          rw [equals,datum,datum,Datum.object.injEq,entryData_eq distinct distinct',Bool.and_eq_true,beq_iff_eq,
            equalEntries_iff]
          refine and_congr_right fun _ => forall₂_congr fun entry present => exists_congr fun y => ?_
          refine and_congr_right fun found => ?_
          exact ih entry present (formed' _ (Entries.mem_of_get? found))
      | _ => simp [equals,datum]

theorem Respelled.datum {v w : Json} (respelled : Respelled v w) (first : v.WellFormed) (second : w.WellFormed) :
    v.datum = w.datum := by
  induction respelled with
  | same v => rfl
  | number equal =>
      cases first with | number fits => ?_
      cases second with | number fits' => ?_
      exact congrArg Datum.number ((compare?_eq fits fits').mp equal)
  | @array vs ws count each ih =>
      cases first with | array formed => ?_
      cases second with | array formed' => ?_
      rw [Json.datum,Json.datum,elementData_map,elementData_map]
      refine congrArg Datum.array (List.ext_getElem (by simpa using count) fun i here there => ?_)
      rw [List.getElem_map,List.getElem_map]
      rw [List.length_map] at here there
      exact ih i _ _ (List.getElem?_eq_getElem here) (List.getElem?_eq_getElem there)
        (formed _ (List.getElem_mem here)) (formed' _ (List.getElem_mem there))
  | object order each ih =>
      cases first with | object distinct formed => ?_
      cases second with | object distinct' formed' => ?_
      refine congrArg Datum.object (entryData_perm distinct' order fun key v w here there => ?_)
      exact ih key v w here there (formed _ here) (formed' _ there)

-- Two values are equal when they are the same datum, which neither the order of entries nor the
-- spelling of a number can change.
theorem equals_equivalence {u v w : Json} (first : u.WellFormed) (second : v.WellFormed) (third : w.WellFormed) :
    u.equals u = true ∧ u.equals v = v.equals u ∧
      (u.equals v = true → v.equals w = true → u.equals w = true) ∧
      (∀ u' v' : Json, u'.WellFormed → v'.WellFormed → Respelled u u' → Respelled v v' → u'.equals v' = u.equals v) ∧
      (u.equals v = true ↔ u.datum = v.datum) := by
  refine ⟨(equals_datum first first).mpr rfl,?symmetric,fun left right => ?transitive,?respelled,equals_datum first second⟩
  case symmetric =>
      rw [Bool.eq_iff_iff,equals_datum first second,equals_datum second first]
      exact eq_comm
  case transitive =>
      rw [equals_datum first second] at left
      rw [equals_datum second third] at right
      exact (equals_datum first third).mpr (left.trans right)
  case respelled =>
      intro u' v' first' second' left right
      rw [Bool.eq_iff_iff,equals_datum first' second',equals_datum first second,left.datum first first',
        right.datum second second']

-- Above 2^53 not every integer has a double of its own.
theorem equals_equivalence_respelled :
    let u : Json := .object [("a",.number (.int 9007199254740993)),("b",.null)]
    let v : Json := .object [("b",.null),("a",.number (.int 9007199254740992))]
    u.WellFormed ∧ v.WellFormed ∧ Respelled u v ∧ u.equals v = true := by
  intro u v
  have formed : u.WellFormed := by
    refine .object (by decide) (List.forall_mem_cons.mpr ⟨?_,List.forall_mem_singleton.mpr .null⟩)
    exact .number ⟨by decide,by decide⟩
  have formed' : v.WellFormed := by
    refine .object (by decide) (List.forall_mem_cons.mpr ⟨.null,List.forall_mem_singleton.mpr ?_⟩)
    exact .number ⟨by decide,by decide⟩
  have same : (Numeric.int 9007199254740993).toBinary64.compare? (Numeric.int 9007199254740992).toBinary64 = some .eq := by
    decide +kernel
  have respelled : Respelled u v := by
    refine .object (List.Perm.swap _ _ _) fun key x y here there => ?_
    simp only [List.mem_cons,List.not_mem_nil,or_false,Prod.mk.injEq] at here there
    rcases here with ⟨rfl,rfl⟩ | ⟨rfl,rfl⟩
    · rcases there with ⟨other,_⟩ | ⟨_,rfl⟩
      · exact absurd other (by decide)
      · exact .number same
    · rcases there with ⟨_,rfl⟩ | ⟨other,_⟩
      · exact .same _
      · exact absurd other (by decide)
  obtain ⟨reflexive,_,_,kept,_⟩ := equals_equivalence formed formed formed
  exact ⟨formed,formed',respelled,(kept u v formed formed' (.same u) respelled).trans reflexive⟩

end JsonQuery.Json
