import JsonQuery.Proofs.Builtin.Asked
import JsonQuery.Proofs.Outcome

namespace JsonQuery

theorem Json.asNumber?_of_kind {v : Json} (number : v.kind = .number) : v.asNumber?.isSome := by
  cases v <;> first | rfl | cases number

theorem Json.asString?_of_kind {v : Json} (string : v.kind = .string) : v.asString?.isSome := by
  cases v <;> first | rfl | cases string

-- Nothing is left out of a list all of which can be read.
theorem filterMap_whole {f : α → Option β} {items : List α} (each : ∀ item ∈ items, (f item).isSome) :
    (items.filterMap f).map some = items.map f := by
  rw [List.map_filterMap_some_eq_filter_map_isSome,List.filter_eq_self]
  simpa using each

namespace Builtin

-- The only faults that a body adds of its own.
inductive KeyFault (function : String) : EvalError → Prop where
  | kind (k : Kind) : KeyFault function (.type (.keyKind function k))
  | kinds (first k : Kind) : KeyFault function (.type (.keyKinds function first k))

-- A fault of the expression argument on an element of the array argument.
def Deferred (arguments : List Argument) (fault : EvalError) : Prop :=
  ∃ e run v, .expression e run ∈ arguments ∧ .value v ∈ arguments ∧
    ∃ element ∈ v.elements, run element = .error fault

-- The bodies that evaluate an argument of theirs.
def deferring : List Builtin := [.map,.sortBy,.minBy,.maxBy]

theorem keyed_fault {function : String} {run : Json → Except EvalError Json} {expected : Option Kind}
    {elements : List Json} {fault : EvalError} (raised : keyed function run expected elements = .error fault) :
    (∃ element ∈ elements, run element = .error fault) ∨ KeyFault function fault := by
  induction elements generalizing expected with
  | nil => cases raised
  | cons element rest ih =>
      have later {expected : Option Kind} (raised : keyed function run expected rest = .error fault) :
          (∃ v ∈ element :: rest, run v = .error fault) ∨ KeyFault function fault :=
        (ih raised).imp (fun ⟨v,inside,same⟩ => ⟨v,List.mem_cons_of_mem element inside,same⟩) id
      rcases bind_error.mp raised with here | ⟨key,_,raised⟩
      · exact .inl ⟨element,List.mem_cons_self,here⟩
      · split at raised
        · split at raised
          · split at raised
            · exact later (made_raised raised)
            · cases raised
              exact .inr (.kinds ..)
          · exact later (made_raised raised)
        · cases raised
          exact .inr (.kind _)

section
variable {b : Builtin} {arguments : List Argument}

section
variable (granted : ∀ ask ∈ b.asks arguments.length, Arguments.Grants arguments ask.1 ask.2)
include granted

theorem body_answers (plain : b ∉ deferring) : ∃ v, b.body arguments = .ok v := by
  have value {index : Nat} (asked : (index,.value) ∈ b.asks arguments.length) :
      ∃ v, Arguments.value arguments index = .ok v := granted (index,.value) asked
  have string {index : Nat} (asked : (index,.string) ∈ b.asks arguments.length) :
      ∃ s, Arguments.string arguments index = .ok s := granted (index,.string) asked
  have one (finish : Json → Json) (asked : (0,.value) ∈ b.asks arguments.length) :
      ∃ v, (Arguments.value arguments 0 >>= fun v => pure (finish v)) = .ok v :=
    bind_answers (value asked) fun _ => ⟨_,rfl⟩
  have number (finish : Number.Binary64 → Json) (asked : (0,.number) ∈ b.asks arguments.length) :
      ∃ v, (Arguments.number arguments 0 >>= fun x => pure (finish x)) = .ok v :=
    bind_answers (granted (0,.number) asked) fun _ => ⟨_,rfl⟩
  have strings (finish : String → String → Json) (first : (0,.string) ∈ b.asks arguments.length)
      (second : (1,.string) ∈ b.asks arguments.length) : ∃ v, (Arguments.string arguments 0 >>= fun s =>
        Arguments.string arguments 1 >>= fun t => pure (finish s t)) = .ok v :=
    bind_answers (string first) fun _ => bind_answers (string second) fun _ => ⟨_,rfl⟩
  cases b with
  | abs | ceil | floor => exact number _ (.head _)
  | endsWith | startsWith => exact strings _ (.head _) (.tail _ (.head _))
  | notNull => exact ⟨_,rfl⟩
  | contains => exact bind_answers (value (.head _)) fun _ =>
      bind_answers (value (.tail _ (.head _))) fun _ => ⟨_,rfl⟩
  | join => exact bind_answers (string (.head _)) fun _ =>
      bind_answers (value (.tail _ (.head _))) fun _ => ⟨_,rfl⟩
  | merge =>
      refine bind_answers (mapM_answers fun index inside => ?_) fun _ => ⟨_,rfl⟩
      exact value (List.mem_map_of_mem inside)
  | map | sortBy | minBy | maxBy => exact absurd (by decide) plain
  | _ => exact one _ (.head _)

theorem body_fault {fault : EvalError} (raised : b.body arguments = .error fault) :
    Deferred arguments fault ∨ b ∈ [.sortBy,.minBy,.maxBy] ∧ KeyFault b.name fault := by
  have key (finish : List (Json × Json) → Json) (family : b ∈ [.sortBy,.minBy,.maxBy])
      (subject : (0,.value) ∈ b.asks arguments.length) (deferred : (1,.expression) ∈ b.asks arguments.length)
      (raised : (keyedArguments b.name arguments >>= fun pairs => pure (finish pairs)) = .error fault) :
      Deferred arguments fault ∨ b ∈ [.sortBy,.minBy,.maxBy] ∧ KeyFault b.name fault := by
    obtain ⟨v,given⟩ := granted (0,.value) subject
    obtain ⟨run,taken⟩ := granted (1,.expression) deferred
    obtain ⟨e,reference⟩ := Arguments.mem_of_expression taken
    have opened : keyedArguments b.name arguments = keyed b.name run none v.elements := by
      rw [keyedArguments,given,taken]
      rfl
    refine (keyed_fault (opened.symm.trans (made_raised raised))).imp (fun inside => ?_) fun fault => ⟨family,fault⟩
    exact ⟨e,run,v,reference,Arguments.mem_of_value given,inside⟩
  cases b with
  | map =>
      obtain ⟨run,taken⟩ := granted (0,.expression) (.head _)
      obtain ⟨v,given⟩ := granted (1,.value) (.tail _ (.head _))
      obtain ⟨e,reference⟩ := Arguments.mem_of_expression taken
      have opened : mapBody arguments = (v.elements.mapM run >>= fun vs => pure (.array vs)) := by
        rw [mapBody,taken,given]
        rfl
      exact .inl ⟨e,run,v,reference,Arguments.mem_of_value given,
        mapM_fault (made_raised (opened.symm.trans raised))⟩
  | sortBy => exact key _ (by decide) (.head _) (.tail _ (.head _)) raised
  | minBy => exact key _ (by decide) (.head _) (.tail _ (.head _)) raised
  | maxBy => exact key _ (by decide) (.head _) (.tail _ (.head _)) raised
  | _ =>
      obtain ⟨v,answered⟩ := body_answers granted (by decide)
      cases raised.symm.trans answered

end

-- An array of one kind is read whole by a reader of that kind.
theorem elements_whole {kind : Kind} {type : ParameterType} {read : Json → Option α} {function : String}
    {index : Nat} {v : Json} (passed : b.signature.validate function arguments = .ok ())
    (declared : b.signature.typesAt? index = some [type])
    (only : ∀ v, type.acceptsValue v = ParameterType.isArrayOf kind v)
    (reads : ∀ v : Json, v.kind = kind → (read v).isSome) (given : Arguments.value arguments index = .ok v) :
    (v.elements.filterMap read).map some = v.elements.map read := by
  have accepted := (Signature.validate_ok.mp passed).2 index _ _ (Arguments.value_ok.mp given) declared
  rw [Argument.accepts_value,only,ParameterType.isArrayOf,Bool.and_eq_true,List.all_eq_true] at accepted
  exact filterMap_whole fun element inside => reads element (eq_of_beq (accepted.2 element inside))

end

-- What a body meets behind its signature.
structure Sheltered (b : Builtin) (arguments : List Argument) (current : Json) : Prop where
  answered : b ∉ deferring → ∃ v, b.function.body arguments current = .ok v
  faults : ∀ fault, b.function.body arguments current = .error fault →
    Deferred arguments fault ∨ b ∈ [.sortBy,.minBy,.maxBy] ∧ KeyFault b.name fault
  granted : ∀ ask ∈ b.asks arguments.length, Arguments.Grants arguments ask.1 ask.2
  numbers : b ∈ [.avg,.sum] → ∀ v, Arguments.value arguments 0 = .ok v →
    (Builtin.numbers v).map some = v.elements.map Json.asNumber?
  strings : b = .join → ∀ v, Arguments.value arguments 1 = .ok v →
    (v.elements.filterMap Json.asString?).map some = v.elements.map Json.asString?

theorem validate_shelters (b : Builtin) (name : String) (arguments : List Argument) (current : Json)
    (passed : b.function.signature.validate name arguments = .ok ()) : Sheltered b arguments current := by
  have granted : ∀ ask ∈ b.asks arguments.length, Arguments.Grants arguments ask.1 ask.2 :=
    fun _ => asks_granted passed
  refine ⟨body_answers granted,fun _ => body_fault granted,granted,?numbers,?strings⟩
  case numbers =>
      intro family v given
      obtain rfl | rfl : b = .avg ∨ b = .sum := by simpa using family
      all_goals exact elements_whole passed rfl (fun _ => rfl) (fun _ => Json.asNumber?_of_kind) given
  case strings =>
      rintro rfl v given
      exact elements_whole passed rfl (fun _ => rfl) (fun _ => Json.asString?_of_kind) given

theorem validate_shelters_sortBy : ∃ arguments : List Argument,
    Builtin.sortBy.function.signature.validate "sort_by" arguments = .ok () ∧
      Builtin.sortBy.function.body arguments .null = .error (.type (.keyKind "sort_by" .boolean)) ∧
      Sheltered .sortBy arguments .null :=
  ⟨[.value (.array [.bool true]),.expression .current .ok],rfl,rfl,validate_shelters .sortBy "sort_by" _ .null rfl⟩

end Builtin
end JsonQuery
