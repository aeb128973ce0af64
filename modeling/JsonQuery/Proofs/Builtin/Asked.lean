import JsonQuery.Builtin.Body
import JsonQuery.Proofs.Function.Signature

namespace JsonQuery

-- A body gets what it asks for at a position.
def Arguments.Grants (arguments : List Argument) (index : Nat) : Wanted → Prop
  | .value => ∃ v, value arguments index = .ok v
  | .expression => ∃ run, expression arguments index = .ok run
  | .number => ∃ x, number arguments index = .ok x
  | .string => ∃ s, string arguments index = .ok s

-- What an argument must be when every one of the types accepts only such.
def ParameterType.provide (types : List ParameterType) : Wanted → Bool
  | .value => types.all (· != .expression)
  | .expression => types.all (· == .expression)
  | .number => types.all (· == .number)
  | .string => types.all (· == .string)

@[simp] theorem Argument.accepts_value (v : Json) (type : ParameterType) :
    (Argument.value v).accepts [type] = type.acceptsValue v := Bool.or_false _

namespace Arguments
variable {arguments : List Argument} {index : Nat} {x : Argument} {types : List ParameterType}

theorem value_ok : value arguments index = .ok v ↔ arguments[index]? = some (.value v) := by
  unfold value
  cases arguments[index]? with
  | none => simp
  | some x => cases x <;> simp [Argument.value?]

theorem expression_ok :
    expression arguments index = .ok run ↔ ∃ e, arguments[index]? = some (.expression e run) := by
  unfold expression
  cases arguments[index]? with
  | none => simp
  | some x => cases x <;> simp [Argument.evaluate?]

theorem mem_of_value (given : value arguments index = .ok v) : .value v ∈ arguments :=
  List.mem_of_getElem? (value_ok.mp given)

theorem mem_of_expression (given : expression arguments index = .ok run) : ∃ e, .expression e run ∈ arguments :=
  (expression_ok.mp given).imp fun _ => List.mem_of_getElem?

theorem accepted_by (accepted : x.accepts types = true) (all : types.all (· == type) = true) :
    x.accepts [type] = true := by
  obtain ⟨one,inside,takes⟩ := List.any_eq_true.mp accepted
  obtain rfl := eq_of_beq (List.all_eq_true.mp all one inside)
  simpa [Argument.accepts] using takes

theorem granted (here : arguments[index]? = some x) (accepted : x.accepts types = true)
    (provided : ParameterType.provide types wanted = true) : Grants arguments index wanted := by
  cases wanted with
  | value =>
      cases x with
      | value v => exact ⟨v,value_ok.mpr here⟩
      | expression e run =>
          obtain ⟨one,inside,takes⟩ := List.any_eq_true.mp accepted
          have other := List.all_eq_true.mp provided one inside
          simp [eq_of_beq takes] at other
  | expression =>
      have alone := accepted_by accepted provided
      cases x with
      | value v => cases alone
      | expression e run => exact ⟨run,expression_ok.mpr ⟨e,here⟩⟩
  | number =>
      have alone := accepted_by accepted provided
      cases x with
      | value v =>
          cases v <;> try cases alone
          exact ⟨_,by rw [number,value_ok.mpr here]; rfl⟩
      | expression e run => cases alone
  | string =>
      have alone := accepted_by accepted provided
      cases x with
      | value v =>
          cases v <;> try cases alone
          exact ⟨_,by rw [string,value_ok.mpr here]; rfl⟩
      | expression e run => cases alone

end Arguments

namespace Builtin

-- The positions that a body reads, and what it takes the argument there to be.
def asks : Builtin → Nat → List (Nat × Wanted)
  | .abs, _ | .ceil, _ | .floor, _ => [(0,.number)]
  | .endsWith, _ | .startsWith, _ => [(0,.string),(1,.string)]
  | .contains, _ => [(0,.value),(1,.value)]
  | .join, _ => [(0,.string),(1,.value)]
  | .merge, count => (List.range count).map fun index => (index,.value)
  | .notNull, _ => []
  | .map, _ => [(0,.expression),(1,.value)]
  | .sortBy, _ | .minBy, _ | .maxBy, _ => [(0,.value),(1,.expression)]
  | _, _ => [(0,.value)]

-- Every question is about an argument that is there and whose declared types answer it.
theorem asks_declared (b : Builtin) {count : Nat} (admitted : b.signature.arity.admits count = true)
    {ask : Nat × Wanted} (asked : ask ∈ b.asks count) : ask.1 < count ∧
      ∃ types, b.signature.typesAt? ask.1 = some types ∧ ParameterType.provide types ask.2 = true := by
  have least : b.signature.arity.least ≤ count := by
    simp only [Arity.admits,Bool.and_eq_true,decide_eq_true_eq] at admitted
    exact admitted.1
  cases b with
  | notNull => cases asked
  | merge =>
      obtain ⟨index,inside,rfl⟩ := List.mem_map.mp asked
      refine ⟨List.mem_range.mp inside,[.object],?_,rfl⟩
      cases index <;> rfl
  | endsWith | startsWith | contains | join | map | sortBy | minBy | maxBy =>
      simp only [asks,List.mem_cons,List.not_mem_nil,or_false] at asked
      rcases asked with rfl | rfl <;> exact ⟨Nat.lt_of_lt_of_le (by decide) least,_,rfl,rfl⟩
  | _ =>
      cases List.mem_singleton.mp asked
      exact ⟨Nat.lt_of_lt_of_le (by decide) least,_,rfl,rfl⟩

section
variable {b : Builtin} {function : String} {arguments : List Argument}
  (passed : b.signature.validate function arguments = .ok ())
include passed

theorem asks_granted {ask : Nat × Wanted} (asked : ask ∈ b.asks arguments.length) :
    Arguments.Grants arguments ask.1 ask.2 := by
  obtain ⟨present,types,declared,provided⟩ :=
    asks_declared b (Signature.validate_ok.mp passed).1 asked
  obtain ⟨x,here,accepted⟩ := Signature.validate_required passed declared present
  exact Arguments.granted here accepted provided

end

end Builtin
end JsonQuery
