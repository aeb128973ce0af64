import JsonQuery.Proofs.Builtin.Merging
import JsonQuery.Proofs.Evaluation.Traversal
import JsonQuery.Proofs.Expr.Tree
import JsonQuery.Proofs.Function.Call
import JsonQuery.Proofs.Function.Registry
import JsonQuery.Proofs.Json.Reading

namespace JsonQuery
open Evaluation

-- Of a result, if there is one.
def Yields (P : α → Prop) (r : Except ε α) : Prop := ∀ a, r = .ok a → P a

namespace Yields
section
variable {P : α → Prop} {Q : β → Prop}

theorem ok (holds : P a) : Yields P (.ok a : Except ε α) := by
  intro b same
  exact Except.ok.inj same ▸ holds

theorem error (e : ε) : Yields P (.error e) := nofun

theorem bind {x : Except ε α} {f : α → Except ε β} (first : Yields P x)
    (second : ∀ a, P a → Yields Q (f a)) : Yields Q (x >>= f) := by
  cases x with
  | error e => exact .error e
  | ok a => exact second a (first a rfl)

-- Whatever the first step gives.
theorem after {x : Except ε α} {f : α → Except ε β} (second : ∀ a, Yields Q (f a)) : Yields Q (x >>= f) :=
  bind (P := fun _ => True) (fun _ _ => trivial) fun a _ => second a

theorem mapM {f : α → Except ε β} {items : List α} (each : ∀ item ∈ items, Yields Q (f item)) :
    Yields (fun xs => ∀ x ∈ xs, Q x) (items.mapM f) := by
  induction items with
  | nil => exact .ok nofun
  | cons item items ih =>
      rw [List.mapM_cons]
      refine (each item List.mem_cons_self).bind fun x first => ?_
      have others := ih fun later present => each later (List.mem_cons_of_mem _ present)
      exact others.bind fun xs later => .ok (List.forall_mem_cons.mpr ⟨first,later⟩)

end
end Yields

abbrev YieldsFormed (r : Except EvalError Json) : Prop := Yields Json.WellFormed r

-- A deferred expression keeps to well-formed values whenever a function runs it.
def Argument.WellFormed : Argument → Prop
  | .value v => v.WellFormed
  | .expression _ evaluate => ∀ v, v.WellFormed → YieldsFormed (evaluate v)

namespace Builtin

theorem keyed_formed {evaluate : Json → Except EvalError Json} {vs : List Json}
    (each : ∀ v ∈ vs, v.WellFormed) (function : String) (expected : Option Kind) :
    Yields (fun pairs => ∀ pair ∈ pairs, pair.2.WellFormed) (keyed function evaluate expected vs) := by
  induction vs generalizing expected with
  | nil => exact .ok nofun
  | cons v vs ih =>
      obtain ⟨first,later⟩ := List.forall_mem_cons.mp each
      have joined (key : Json) (expected : Option Kind) :
          Yields (fun pairs => ∀ pair ∈ pairs, pair.2.WellFormed)
            (keyed function evaluate expected vs >>= fun pairs => pure ((key,v) :: pairs)) :=
        (ih later expected).bind fun _ others => .ok (List.forall_mem_cons.mpr ⟨first,others⟩)
      unfold keyed
      refine .after fun key => ?_
      split
      · split
        · split
          · exact joined key _
          · exact .error _
        · exact joined key _
      · exact .error _

theorem mergeBody_formed {vs : List Json} (each : ∀ v ∈ vs, v.WellFormed) : (mergeBody vs).WellFormed := by
  rw [mergeBody_ofPairs fun v present => (each v present).entries.distinct]
  refine Json.ofPairs_wellFormed fun entry inside => ?_
  obtain ⟨v,present,here⟩ := List.mem_flatMap.mp inside
  exact (each v present).entries.each entry here

theorem extremeBody_formed {v : Json} (formed : v.WellFormed) (wins : Ordering) :
    (extremeBody wins v).WellFormed :=
  .getD_null fun best found => formed.elements best (Json.extremeOn_mem found)

theorem avgBody_formed (v : Json) : (avgBody v).WellFormed := by
  unfold avgBody
  split
  · exact .null
  · exact Json.ofBinary64_wellFormed _

theorem lengthBody_formed (v : Json) : (lengthBody v).WellFormed := by
  unfold lengthBody
  extract_lets count
  exact Json.ofBinary64_wellFormed _

theorem reverseBody_formed {v : Json} (formed : v.WellFormed) : (reverseBody v).WellFormed := by
  unfold reverseBody
  split
  · exact .string
  · exact .array fun element present => formed.elements element (List.mem_reverse.mp present)

theorem toArrayBody_formed {v : Json} (formed : v.WellFormed) : (toArrayBody v).WellFormed := by
  unfold toArrayBody
  split
  · exact formed
  · exact .array (List.forall_mem_singleton.mpr formed)

theorem toNumberBody_formed {v : Json} (formed : v.WellFormed) : (toNumberBody v).WellFormed := by
  unfold toNumberBody
  split
  · exact formed
  · split
    · rename_i found
      exact Json.read_wellFormed found
    · exact .null
  · exact .null

theorem toStringBody_formed (v : Json) : (toStringBody v).WellFormed := by
  unfold toStringBody
  split <;> exact .string

end Builtin

section
variable {arguments : List Argument} (formed : ∀ x ∈ arguments, x.WellFormed)
include formed

namespace Arguments

omit formed in
theorem mem_of_found {index : Nat} {f : Argument → Option α} (found : arguments[index]?.bind f = some a) :
    ∃ x ∈ arguments, f x = some a := by
  obtain ⟨x,present,same⟩ := Option.bind_eq_some_iff.mp found
  exact ⟨x,List.mem_of_getElem? present,same⟩

theorem value_formed (index : Nat) : YieldsFormed (value arguments index) := by
  unfold value
  split
  · rename_i v found
    obtain ⟨x,present,same⟩ := mem_of_found found
    cases x with
    | value => cases same; exact .ok (formed _ present)
    | expression => cases same
  · exact .error _

theorem expression_formed (index : Nat) :
    Yields (fun evaluate => ∀ v, v.WellFormed → YieldsFormed (evaluate v)) (expression arguments index) := by
  unfold expression
  split
  · rename_i evaluate found
    obtain ⟨x,present,same⟩ := mem_of_found found
    cases x with
    | value => cases same
    | expression => cases same; exact .ok (formed _ present)
  · exact .error _

end Arguments

namespace Builtin

theorem keyedArguments_formed (function : String) :
    Yields (fun pairs => ∀ pair ∈ pairs, pair.2.WellFormed) (keyedArguments function arguments) :=
  (Arguments.value_formed formed 0).bind fun _ subject => .after fun _ =>
    keyed_formed subject.elements function none

theorem extremeByBody_formed (function : String) (wins : Ordering) :
    YieldsFormed (extremeByBody function wins arguments) := by
  refine (keyedArguments_formed formed function).bind fun pairs each => .ok ?_
  refine .getD_null fun best found => ?_
  obtain ⟨pair,held,rfl⟩ := Option.map_eq_some_iff.mp found
  exact each pair (Json.extremeOn_mem held)

theorem notNullBody_formed : (notNullBody arguments).WellFormed := by
  refine .getD_null fun v found => ?_
  obtain ⟨x,present,same⟩ := List.mem_filterMap.mp (List.mem_of_find?_eq_some found)
  have one := formed x present
  cases x with
  | value => cases same; exact one
  | expression => cases same

theorem body_formed (b : Builtin) : YieldsFormed (b.body arguments) := by
  have one (finish : Json → Json) (keeps : ∀ v, v.WellFormed → (finish v).WellFormed) :
      YieldsFormed (Arguments.value arguments 0 >>= fun v => pure (finish v)) :=
    (Arguments.value_formed formed 0).bind fun v given => .ok (keeps v given)
  cases b with
  | abs | ceil | floor => exact .after fun _ => .ok (Json.ofBinary64_wellFormed _)
  | sum => exact one sumBody fun v _ => Json.ofBinary64_wellFormed (Number.Binary64.sum (numbers v))
  | length => exact one lengthBody fun v _ => lengthBody_formed v
  | avg => exact one _ fun v _ => avgBody_formed v
  | contains | endsWith | startsWith => exact .after fun _ => .after fun _ => .ok .bool
  | join => exact .after fun _ => .after fun _ => .ok .string
  | max | min => exact one _ fun _ given => extremeBody_formed given _
  | reverse => exact one _ fun _ given => reverseBody_formed given
  | sort =>
      exact one _ fun _ given => .array fun element present =>
        given.elements element (Json.mem_sortOn.mp present)
  | keys => exact one _ fun _ _ => .array (List.forall_mem_map.mpr fun _ _ => .string)
  | values => exact one _ fun _ given => .array given.values
  | merge =>
      refine (Yields.mapM fun index _ => Arguments.value_formed formed index).bind fun vs each => ?_
      exact .ok (mergeBody_formed each)
  | toArray => exact one _ fun _ given => toArrayBody_formed given
  | toNumber => exact one _ fun _ given => toNumberBody_formed given
  | toString => exact one _ fun v _ => toStringBody_formed v
  | type => exact one _ fun _ _ => .string
  | notNull => exact .ok (notNullBody_formed formed)
  | map =>
      refine (Arguments.expression_formed formed 0).bind fun evaluate runs => ?_
      refine (Arguments.value_formed formed 1).bind fun subject given => ?_
      exact (Yields.mapM fun v present => runs v (given.elements v present)).bind fun _ each => .ok (.array each)
  | sortBy =>
      refine (keyedArguments_formed formed "sort_by").bind fun pairs each => .ok (.array ?_)
      exact List.forall_mem_map.mpr fun pair present => each pair (Json.mem_sortOn.mp present)
  | minBy | maxBy => exact extremeByBody_formed formed _ _

end Builtin
end

-- Silence has only null to give.
theorem Function.call_formed {f : Function} {arguments : List Argument} {current : Json}
    (body : YieldsFormed (f.body arguments current)) (silent : Bool) :
    YieldsFormed (f.call silent arguments current) := by
  have result : YieldsFormed (f.signature.validate f.name arguments >>= fun _ => f.body arguments current) :=
    .after fun _ => body
  rw [Function.call_hush]
  rcases Function.hush_cases silent _ with same | ⟨_,null,_⟩
  · exact same ▸ result
  · exact null ▸ .ok .null

def Scope.WellFormed (scope : Scope Json) : Prop := ∀ name v, scope.get? name = some v → v.WellFormed

theorem Scope.WellFormed.child {scope : Scope Json} (bound : scope.WellFormed) : (Scope.child scope).WellFormed :=
  bound

theorem Scope.WellFormed.bind {scope : Scope Json} (bound : scope.WellFormed) (value : v.WellFormed)
    (name : String) : (Scope.bind name v scope).WellFormed := by
  intro other found given
  unfold Scope.get? at given
  split at given
  · cases given
    exact value
  · exact bound other found given

namespace Evaluation

theorem compareValues_formed (op : Comparison) (left right : Json) : (compareValues op left right).WellFormed := by
  have ordered (test : Ordering → Bool) : (compareValues.ordered left right test).WellFormed := by
    unfold compareValues.ordered
    split
    · exact .bool
    · exact .null
  cases op with
  | equal | notEqual => exact .bool
  | less | lessEqual | greater | greaterEqual => exact ordered _

theorem sliceValue_formed {v : Json} (formed : v.WellFormed) (s : Slice) : YieldsFormed (sliceValue s v) := by
  unfold sliceValue
  extract_lets step
  split
  · exact .error _
  · split
    · exact .ok (.sliceElements formed.elements s step)
    · exact .ok .null

theorem project_formed {run : Json → Except EvalError Json} {vs : List Json}
    (each : ∀ v ∈ vs, YieldsFormed (run v)) : YieldsFormed (project run vs) := by
  rw [project_mapM]
  exact (Yields.mapM each).bind fun _ results => .ok (.array fun v present =>
    results v (List.mem_filter.mp present).1)

theorem keepWhere_formed {test : Json → Except EvalError Json} {vs : List Json}
    (each : ∀ v ∈ vs, v.WellFormed) : Yields (fun kept => ∀ v ∈ kept, v.WellFormed) (keepWhere test vs) := by
  induction vs with
  | nil => exact .ok nofun
  | cons v vs ih =>
      obtain ⟨first,later⟩ := List.forall_mem_cons.mp each
      refine .after fun verdict => (ih later).bind fun kept others => ?_
      split
      · exact .ok (List.forall_mem_cons.mpr ⟨first,others⟩)
      · exact .ok others

theorem readLiteral_formed (text : String) : YieldsFormed (readLiteral text) := by
  unfold readLiteral
  split
  · rename_i found
    exact .ok (Json.read_wellFormed found)
  · exact .error _

end Evaluation

section
variable {silent : Bool} {root : Json}

-- On whatever value and scope, also much later inside a function.
def EvalFormed (silent : Bool) (root : Json) (e : Expr) : Prop :=
  ∀ v scope, v.WellFormed → scope.WellFormed → YieldsFormed (e.eval ⟨.builtins,silent,root⟩ v scope)

theorem evalRest_formed {rest : Option Expr} (each : ∀ e ∈ rest, EvalFormed silent root e) {v : Json}
    {scope : Scope Json} (formed : v.WellFormed) (bound : scope.WellFormed) :
    YieldsFormed (evalRest ⟨.builtins,silent,root⟩ rest v scope) := by
  cases rest with
  | none => exact .ok formed
  | some e => exact each e rfl v scope formed bound

theorem evalBindings_formed {bindings : List (String × Expr)}
    (each : ∀ binding ∈ bindings, EvalFormed silent root binding.2) {v : Json} {scope : Scope Json}
    (formed : v.WellFormed) (bound : scope.WellFormed) :
    Yields Scope.WellFormed (evalBindings ⟨.builtins,silent,root⟩ bindings v scope) := by
  induction bindings generalizing scope with
  | nil => exact .ok bound
  | cons binding bindings ih =>
      obtain ⟨first,later⟩ := List.forall_mem_cons.mp each
      exact (first v scope formed bound).bind fun value given => ih later (bound.bind given binding.1)

theorem evalArgument_formed {e : Expr} (evaluated : EvalFormed silent root e)
    (deferred : ∀ inner, e = .reference inner → EvalFormed silent root inner) {v : Json} {scope : Scope Json}
    (formed : v.WellFormed) (bound : scope.WellFormed) :
    Yields Argument.WellFormed (e.evalArgument ⟨.builtins,silent,root⟩ v scope) := by
  unfold Expr.evalArgument
  split
  · rename_i inner
    exact .ok fun element given => deferred inner rfl element scope given bound
  · exact (evaluated v scope formed bound).bind fun _ given => .ok given

section
variable {left right condition : Expr} {rest : Option Expr} (before : EvalFormed silent root left)
include before

section
variable (each : ∀ e ∈ rest, EvalFormed silent root e)
include each

theorem projectArray_formed : EvalFormed silent root (.projectArray left rest) := by
  intro v scope formed bound
  refine (before v scope formed bound).bind fun base given => ?_
  cases base with
  | array elements =>
      exact project_formed fun element present => evalRest_formed each (given.elements element present) bound
  | _ => exact .ok .null

theorem projectObject_formed : EvalFormed silent root (.projectObject left rest) := by
  intro v scope formed bound
  refine (before v scope formed bound).bind fun base given => ?_
  cases base with
  | object entries =>
      exact project_formed fun value present => evalRest_formed each (given.values value present) bound
  | _ => exact .ok .null

-- What the condition gives does not matter: what is kept was there before.
theorem filter_formed : EvalFormed silent root (.filter left condition rest) := by
  intro v scope formed bound
  refine (before v scope formed bound).bind fun base given => ?_
  cases base with
  | array elements =>
      refine (keepWhere_formed given.elements).bind fun kept others => ?_
      exact project_formed fun element present => evalRest_formed each (others element present) bound
  | _ => exact .ok .null

end

section
variable (after : EvalFormed silent root right)
include after

theorem or_formed : EvalFormed silent root (.or left right) := by
  intro v scope formed bound
  refine (before v scope formed bound).bind fun first given => ?_
  split
  · exact .ok given
  · exact after v scope formed bound

theorem and_formed : EvalFormed silent root (.and left right) := by
  intro v scope formed bound
  refine (before v scope formed bound).bind fun first given => ?_
  split
  · exact after v scope formed bound
  · exact .ok given

end
end

theorem list_formed {elements : List Expr} (each : ∀ e ∈ elements, EvalFormed silent root e) :
    EvalFormed silent root (.list elements) := by
  intro v scope formed bound
  simp only [Expr.eval,evalList_mapM]
  split
  · exact .ok .null
  · exact (Yields.mapM fun e present => each e present v scope formed bound).bind fun _ values =>
      .ok (.array values)

theorem hash_formed {entries : List (String × Expr)}
    (each : ∀ entry ∈ entries, EvalFormed silent root entry.2) : EvalFormed silent root (.hash entries) := by
  intro v scope formed bound
  simp only [Expr.eval,evalPairs_mapM]
  split
  · exact .ok .null
  · have pairs : Yields (fun pairs => ∀ pair ∈ pairs, pair.2.WellFormed) (entries.mapM fun entry => do
        return (entry.1,← entry.2.eval ⟨.builtins,silent,root⟩ v scope)) :=
      Yields.mapM fun entry present =>
        (each entry present v scope formed bound).bind fun _ given => .ok given
    exact pairs.bind fun _ values => .ok (Json.ofPairs_wellFormed values)

theorem call_formed {name : String} {arguments : List Expr}
    (each : ∀ e ∈ arguments, EvalFormed silent root e)
    (deferred : ∀ e, .reference e ∈ arguments → EvalFormed silent root e) :
    EvalFormed silent root (.call name arguments) := by
  intro v scope formed bound
  simp only [Expr.eval,evalArguments_mapM]
  split
  · exact .error _
  · rename_i f found
    obtain ⟨b,_,rfl⟩ := Registry.get?_builtins_some.mp found
    have values : Yields (fun xs => ∀ x ∈ xs, x.WellFormed)
        (arguments.mapM fun e => e.evalArgument ⟨.builtins,silent,root⟩ v scope) :=
      Yields.mapM fun e present => evalArgument_formed (each e present)
        (fun inner same => deferred inner (same ▸ present)) formed bound
    exact values.bind fun _ given => Function.call_formed (Builtin.body_formed given b) silent

theorem letIn_formed {bindings : List (String × Expr)} {body : Expr}
    (each : ∀ binding ∈ bindings, EvalFormed silent root binding.2) (after : EvalFormed silent root body) :
    EvalFormed silent root (.letIn bindings body) :=
  fun v _ formed bound =>
    (evalBindings_formed each formed bound.child).bind fun inner given => after v inner formed given

theorem eval_formed (rooted : root.WellFormed) (e : Expr) : EvalFormed silent root e := by
  induction e with
  | current => exact fun v _ formed _ => .ok formed
  | root => exact fun _ _ _ _ => .ok rooted
  | «variable» name => exact fun _ scope _ bound => .ok (.getD_null fun v found => bound name v found)
  | field name => exact fun _ _ formed _ => .ok (formed.property name)
  | index i => exact fun _ _ formed _ => .ok (formed.atIndex i)
  | slice s => exact fun _ _ formed _ => sliceValue_formed formed s
  | literal text => exact fun _ _ _ _ => readLiteral_formed text
  | rawString s => exact fun _ _ _ _ => .ok .string
  | reference e => exact fun _ _ _ _ => .ok .null
  | within left right before after | pipe left right before after =>
      intro v scope formed bound
      exact (before v scope formed bound).bind fun base given => after base scope given bound
  | flatten e inner =>
      intro v scope formed bound
      exact (inner v scope formed bound).bind fun _ given => .ok given.flatten
  | not e inner => exact fun _ _ _ _ => .after fun _ => .ok .bool
  | projectArray left rest before each => exact projectArray_formed before each
  | projectObject left rest before each => exact projectObject_formed before each
  | filter left condition rest before test each => exact filter_formed before each
  | or left right before after => exact or_formed before after
  | and left right before after => exact and_formed before after
  | compare op left right before after =>
      exact fun _ _ _ _ => .after fun first => .after fun second => .ok (compareValues_formed op first second)
  | list elements each => exact list_formed each
  | hash entries each => exact hash_formed each
  | call name arguments each deferred => exact call_formed each deferred
  | letIn bindings body each after => exact letIn_formed each after

end

-- The builtin functions and all forms of expressions keep to what a document can hold. A
-- number that leaves the finite ones is replaced, and a key that comes again replaces.
theorem Expr.eval_wellFormed (e : Expr) (silent : Bool) (root v : Json) (scope : Scope Json)
    (rooted : root.WellFormed) (formed : v.WellFormed)
    (bound : ∀ name value, scope.get? name = some value → value.WellFormed) :
    ∀ result, e.eval ⟨.builtins,silent,root⟩ v scope = .ok result → result.WellFormed :=
  eval_formed rooted e v scope formed bound

-- Each element makes an object whose key is written twice, and the largest word is the value
-- that stays.
theorem Expr.eval_wellFormed_map :
    let largest : Json := .number (.int 0xffffffffffffffff)
    let e : Expr := .call "map" [.reference (.hash [("k",.current),("k",.variable "x")]),.current]
    let v : Json := .array [.bool true]
    let scope : Scope Json := .bind "x" largest .empty
    let result : Json := .array [.object [("k",largest)]]
    v.WellFormed ∧ (∀ name value, scope.get? name = some value → value.WellFormed) ∧
      e.eval ⟨.builtins,false,v⟩ v scope = .ok result ∧ result.WellFormed := by
  intro largest e v scope result
  have formed : v.WellFormed := .array (List.forall_mem_singleton.mpr .bool)
  have word : largest.WellFormed := .number ⟨by decide,by decide⟩
  have empty : Scope.WellFormed .empty := nofun
  have bound : ∀ name value, scope.get? name = some value → value.WellFormed := empty.bind word "x"
  have evaluated : e.eval ⟨.builtins,false,v⟩ v scope = .ok result := by rfl
  exact ⟨formed,bound,evaluated,Expr.eval_wellFormed e false v v scope formed formed bound result evaluated⟩

end JsonQuery
