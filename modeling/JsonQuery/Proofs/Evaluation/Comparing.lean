import JsonQuery.Evaluation
import JsonQuery.Proofs.Json.Extremes

namespace JsonQuery
open Number

theorem Number.Binary64.compare?_swap (x y : Binary64) : y.compare? x = (x.compare? y).map Ordering.swap := by
  unfold compare?
  cases x.place? with
  | none => cases y.place? <;> rfl
  | some i =>
      cases y.place? with
      | none => rfl
      | some j => exact congrArg some Std.OrientedOrd.eq_swap

namespace Json

-- The pairs of values that have an order.
def Comparable (v w : Json) : Prop :=
  v.kind = .number ∧ w.kind = .number ∨ v.kind = .string ∧ w.kind = .string

theorem compare?_kinds {v w : Json} (given : v.compare? w = some o) : Comparable v w := by
  cases v <;> cases w <;> try cases given
  case number.number => exact .inl ⟨rfl,rfl⟩
  case string.string => exact .inr ⟨rfl,rfl⟩

theorem Comparable.preordered {u v w : Json} (first : u.WellFormed) (second : v.WellFormed) (third : w.WellFormed)
    (left : Comparable u v) (right : Comparable v w) : Preordered [u,v,w] := by
  have formed : ∀ x ∈ [u,v,w], x.WellFormed := by simp [first,second,third]
  rcases left with ⟨one,two⟩ | ⟨one,two⟩ <;> rcases right with ⟨same,three⟩ | ⟨same,three⟩
  · exact .of_kind formed (.inl rfl) (by simp [one,two,three])
  · cases two.symm.trans same
  · cases two.symm.trans same
  · exact .of_kind formed (.inr rfl) (by simp [one,two,three])

theorem compare?_none {v w : Json} (first : v.WellFormed) (second : w.WellFormed) :
    v.compare? w = none ↔ ¬ Comparable v w := by
  constructor
  · intro absent both
    have ordered : Preordered [v,w,w] :=
      both.preordered first second second (both.imp (fun kinds => ⟨kinds.2,kinds.2⟩) fun kinds => ⟨kinds.2,kinds.2⟩)
    obtain ⟨o,given,_⟩ := ordered.answered v (by simp) w (by simp)
    cases absent.symm.trans given
  · intro apart
    cases given : v.compare? w with
    | none => rfl
    | some o => exact absurd (compare?_kinds given) apart

theorem compare?_swap (v w : Json) : w.compare? v = (v.compare? w).map Ordering.swap := by
  cases v <;> cases w <;> try rfl
  case number.number m n => exact m.toBinary64.compare?_swap n.toBinary64
  case string.string s t => exact congrArg some Std.OrientedOrd.eq_swap

-- Equality is looked at in another way than order, and agrees with it wherever there is one.
theorem equals_compare? {v w : Json} (given : v.compare? w = some o) : v.equals w = (o == .eq) := by
  cases v <;> cases w <;> try cases given
  case number.number m n =>
      have given : m.toBinary64.compare? n.toBinary64 = some o := given
      rw [equals,given]
      cases o <;> rfl
  case string.string s t =>
      rw [equals,Bool.eq_iff_iff,beq_iff_eq,beq_iff_eq]
      exact Std.LawfulEqOrd.compare_eq_iff_eq.symm

end Json

-- What each operator says of two values that are ordered so.
def Comparison.holds : Comparison → Ordering → Bool
  | .equal, o => o == .eq
  | .notEqual, o => o != .eq
  | .less, o => o == .lt
  | .lessEqual, o => o != .gt
  | .greater, o => o == .gt
  | .greaterEqual, o => o != .lt

theorem Comparison.lessEqual_holds (o : Ordering) : Comparison.lessEqual.holds o = o.isLE := by cases o <;> rfl

def Comparison.orderings : List Comparison := [.less,.lessEqual,.greater,.greaterEqual]

namespace Evaluation

theorem compareValues_given {v w : Json} (op : Comparison) (given : v.compare? w = some o) :
    compareValues op v w = .bool (op.holds o) := by
  have equal := Json.equals_compare? given
  cases op <;> simp [compareValues,compareValues.ordered,given,equal,Comparison.holds,bne]

theorem compareValues_absent {v w : Json} {op : Comparison} (ordering : op ∈ Comparison.orderings)
    (absent : v.compare? w = none) : compareValues op v w = .null := by
  cases op with
  | equal | notEqual => simp [Comparison.orderings] at ordering
  | _ => simp [compareValues,compareValues.ordered,absent]

theorem compareValues_holds {v w : Json} {op : Comparison} (ordering : op ∈ Comparison.orderings)
    (holds : compareValues op v w = .bool true) : ∃ o, v.compare? w = some o ∧ op.holds o = true := by
  cases given : v.compare? w with
  | none => cases (compareValues_absent ordering given).symm.trans holds
  | some o =>
      rw [compareValues_given op given] at holds
      exact ⟨o,rfl,Json.bool.inj holds⟩

theorem compareValues_null {v w : Json} {op : Comparison} (first : v.WellFormed) (second : w.WellFormed)
    (ordering : op ∈ Comparison.orderings) : compareValues op v w = .null ↔ ¬ Json.Comparable v w := by
  rw [← Json.compare?_none first second]
  constructor
  · intro null
    cases given : v.compare? w with
    | none => rfl
    | some o => cases (compareValues_given op given).symm.trans null
  · exact compareValues_absent ordering

theorem compareValues_swap (v w : Json) : compareValues .less v w = compareValues .greater w v := by
  have swapped := Json.compare?_swap v w
  cases given : v.compare? w with
  | none =>
      rw [given] at swapped
      rw [compareValues_absent (by decide) given,compareValues_absent (by decide) swapped]
  | some o =>
      rw [given] at swapped
      rw [compareValues_given _ given,compareValues_given _ swapped]
      cases o <;> rfl

theorem compareValues_trans {u v w : Json} {op : Comparison} (first : u.WellFormed) (second : v.WellFormed)
    (third : w.WellFormed) (ascending : op ∈ [.less,.lessEqual]) (left : compareValues op u v = .bool true)
    (right : compareValues op v w = .bool true) : compareValues op u w = .bool true := by
  have ordering : op ∈ Comparison.orderings := by
    simp only [List.mem_cons,List.not_mem_nil,or_false] at ascending
    rcases ascending with rfl | rfl <;> decide
  obtain ⟨o,given,here⟩ := compareValues_holds ordering left
  obtain ⟨o',given',there⟩ := compareValues_holds ordering right
  have ordered := (Json.compare?_kinds given).preordered first second third (Json.compare?_kinds given')
  have inU : u ∈ [u,v,w] := by simp
  have inV : v ∈ [u,v,w] := by simp
  have inW : w ∈ [u,v,w] := by simp
  simp only [List.mem_cons,List.not_mem_nil,or_false] at ascending
  rcases ascending with rfl | rfl
  · obtain rfl : o = .lt := eq_of_beq here
    obtain rfl : o' = .lt := eq_of_beq there
    -- The third cannot stand before the second as well as behind it.
    rcases ordered.beats_third inU inV inW (by decide) given with less | less
    · exact compareValues_given .less less
    · cases (ordered.swapped inV inW given').symm.trans less
  · rw [Comparison.lessEqual_holds] at here there
    obtain ⟨o,given,small⟩ := ordered.transitive u inU v inV w inW ⟨o,given,here⟩ ⟨o',given',there⟩
    rw [compareValues_given .lessEqual given,Comparison.lessEqual_holds,small]

end Evaluation

section
variable {setting : Setting} {v : Json} {scope : Scope Json} {x y z : Expr} {a b c : Json}

-- Both sides are evaluated before they are compared.
theorem Expr.eval_compareValues (op : Comparison) (first : x.eval setting v scope = .ok a)
    (second : y.eval setting v scope = .ok b) :
    (Expr.compare op x y).eval setting v scope = .ok (Evaluation.compareValues op a b) := by
  rw [eval,first]
  simp [bind,Except.bind,second,pure,Except.pure]

-- One order stands behind all six operators, and equality is its middle.
theorem Expr.eval_compared (first : x.eval setting v scope = .ok a) (second : y.eval setting v scope = .ok b)
    (third : z.eval setting v scope = .ok c) (formed : ∀ value ∈ [a,b,c], value.WellFormed) :
    let answer (op : Comparison) (left right : Expr) := (Expr.compare op left right).eval setting v scope
    (∀ op ∈ Comparison.orderings, answer op x y = .ok .null ↔ ¬ Json.Comparable a b) ∧
    (Json.Comparable a b → ∃ less equal greater : Bool, [less,equal,greater].count true = 1 ∧
      answer .less x y = .ok (.bool less) ∧ answer .equal x y = .ok (.bool equal) ∧
      answer .greater x y = .ok (.bool greater) ∧ answer .lessEqual x y = .ok (.bool !greater) ∧
      answer .greaterEqual x y = .ok (.bool !less)) ∧
    answer .less x y = answer .greater y x ∧
    (∀ op ∈ [.less,.lessEqual], answer op x y = .ok (.bool true) → answer op y z = .ok (.bool true) →
      answer op x z = .ok (.bool true)) ∧
    ∃ equal : Bool, answer .equal x y = .ok (.bool equal) ∧ answer .notEqual x y = .ok (.bool !equal) := by
  intro answer
  have formedA : a.WellFormed := formed a (by simp)
  have formedB : b.WellFormed := formed b (by simp)
  have formedC : c.WellFormed := formed c (by simp)
  have answered (op : Comparison) : answer op x y = .ok (Evaluation.compareValues op a b) :=
    Expr.eval_compareValues op first second
  have behind (op : Comparison) : answer op y z = .ok (Evaluation.compareValues op b c) :=
    Expr.eval_compareValues op second third
  have across (op : Comparison) : answer op x z = .ok (Evaluation.compareValues op a c) :=
    Expr.eval_compareValues op first third
  refine ⟨fun op ordering => ?null,fun both => ?trichotomy,?swap,fun op ascending => ?transitive,?opposite⟩
  case null =>
      rw [answered,Except.ok.injEq]
      exact Evaluation.compareValues_null formedA formedB ordering
  case trichotomy =>
      have some := mt (Json.compare?_none formedA formedB).mp (not_not_intro both)
      obtain ⟨o,given⟩ := Option.ne_none_iff_exists'.mp some
      simp only [answered,Evaluation.compareValues_given _ given]
      exact ⟨o == .lt,o == .eq,o == .gt,by cases o <;> rfl,rfl,rfl,rfl,rfl,rfl⟩
  case swap =>
      have back : answer .greater y x = _ := Expr.eval_compareValues .greater second first
      rw [answered,back,Evaluation.compareValues_swap]
  case transitive =>
      rw [answered,behind,across]
      simp only [Except.ok.injEq]
      exact Evaluation.compareValues_trans formedA formedB formedC ascending
  case opposite => exact ⟨a.equals b,answered .equal,answered .notEqual⟩

end

-- Two numbers that have one double tie, and what is above the one is above the other.
theorem Expr.eval_compared_rounded :
    let a : Json := .number (.int 9007199254740993)
    let b : Json := .number (.float (.ofInt 9007199254740992))
    let c : Json := .number (.int 9007199254740994)
    let scope : Scope Json := .bind "a" a (.bind "b" b (.bind "c" c .empty))
    let answer (op : Comparison) (left right : String) :=
      (Expr.compare op (.variable left) (.variable right)).eval ⟨.empty,false,.null⟩ .null scope
    (∀ value ∈ [a,b,c], value.WellFormed) ∧ Json.Comparable a b ∧ answer .lessEqual "a" "b" = .ok (.bool true) ∧
      answer .lessEqual "b" "c" = .ok (.bool true) ∧ answer .lessEqual "a" "c" = .ok (.bool true) ∧
      answer .less "a" "b" = .ok (.bool false) ∧ answer .equal "a" "b" = .ok (.bool true) := by
  intro a b c scope answer
  have formed : ∀ value ∈ [a,b,c], value.WellFormed := by
    refine List.forall_mem_cons.mpr ⟨.number ⟨by decide,by decide⟩,List.forall_mem_cons.mpr ⟨.number ?_,?_⟩⟩
    · show (Binary64.ofInt 9007199254740992).isFinite = true
      decide +kernel
    · exact List.forall_mem_singleton.mpr (.number ⟨by decide,by decide⟩)
  have tied : a.compare? b = some .eq := by decide +kernel
  have below : b.compare? c = some .lt := by decide +kernel
  have given (name : String) : (Expr.variable name).eval ⟨.empty,false,.null⟩ .null scope = .ok ((scope.get? name).getD .null) :=
    rfl
  obtain ⟨_,trichotomy,_,transitive,_⟩ := Expr.eval_compared (given "a") (given "b") (given "c") formed
  have left : answer .lessEqual "a" "b" = .ok (.bool true) :=
    (Expr.eval_compareValues .lessEqual (given "a") (given "b")).trans
      (congrArg Except.ok (Evaluation.compareValues_given _ tied))
  have right : answer .lessEqual "b" "c" = .ok (.bool true) :=
    (Expr.eval_compareValues .lessEqual (given "b") (given "c")).trans
      (congrArg Except.ok (Evaluation.compareValues_given _ below))
  have same : answer .equal "a" "b" = .ok (.bool true) :=
    (Expr.eval_compareValues .equal (given "a") (given "b")).trans
      (congrArg Except.ok (Evaluation.compareValues_given _ tied))
  have both := Json.compare?_kinds tied
  obtain ⟨less,equal,greater,one,first,second,_⟩ := trichotomy both
  cases same.symm.trans second
  have apart : less = false := by cases less <;> cases greater <;> first | rfl | cases one
  exact ⟨formed,both,left,right,transitive _ (by simp) left right,apart ▸ first,same⟩

end JsonQuery
