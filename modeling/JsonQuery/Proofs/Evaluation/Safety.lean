import JsonQuery.Proofs.Acceptance
import JsonQuery.Proofs.Evaluation.Silence
import JsonQuery.Proofs.Expr.Literals

namespace JsonQuery
open Evaluation

def OnlyType (r : Except EvalError α) : Prop := ∀ e, r = .error e → e.kind = .type

namespace OnlyType

theorem ok (a : α) : OnlyType (.ok a) := nofun

theorem type (fault : TypeFault) : OnlyType (.error (.type fault) : Except EvalError α) := by
  intro e given
  cases given
  rfl

theorem bind {x : Except EvalError α} {f : α → Except EvalError β} (first : OnlyType x)
    (second : ∀ a, x = .ok a → OnlyType (f a)) : OnlyType (x >>= f) := by
  cases x with
  | error e => intro found given; cases given; exact first _ rfl
  | ok a => exact second a rfl

theorem mapM {f : α → Except EvalError β} {items : List α}
    (each : ∀ item ∈ items, OnlyType (f item)) : OnlyType (items.mapM f) := by
  induction items with
  | nil => exact ok []
  | cons item items ih =>
      rw [List.mapM_cons]
      refine (each item (by simp)).bind fun _ _ => ?_
      exact (ih fun later present => each later (by simp [present])).bind fun _ _ => ok _

end OnlyType

-- What a deferred expression may do when a function runs it.
def Argument.OnlyType : Argument → Prop
  | .value _ => True
  | .expression _ evaluate => ∀ v, JsonQuery.OnlyType (evaluate v)

namespace Arguments

theorem value_onlyType (arguments : List Argument) (index : Nat) : OnlyType (value arguments index) := by
  unfold value
  split
  · exact .ok _
  · exact .type _

theorem number_onlyType (arguments : List Argument) (index : Nat) :
    OnlyType (number arguments index) := by
  refine (value_onlyType arguments index).bind fun v _ => ?_
  split
  · exact .ok _
  · exact .type _

theorem string_onlyType (arguments : List Argument) (index : Nat) :
    OnlyType (string arguments index) := by
  refine (value_onlyType arguments index).bind fun v _ => ?_
  split
  · exact .ok _
  · exact .type _

theorem expression_onlyType (arguments : List Argument) (index : Nat) :
    OnlyType (expression arguments index) := by
  unfold expression
  split
  · exact .ok _
  · exact .type _

theorem expression_given {arguments : List Argument} (safe : ∀ x ∈ arguments, x.OnlyType)
    (given : expression arguments index = .ok evaluate) (v : Json) : OnlyType (evaluate v) := by
  unfold expression at given
  split at given
  · rename_i found present
    cases given
    obtain ⟨x,inside,deferred⟩ := Option.bind_eq_some_iff.mp present
    have one := safe x (List.mem_of_getElem? inside)
    cases x with
    | value => cases deferred
    | expression e run => cases deferred; exact one v
  · cases given

end Arguments

namespace Builtin

theorem keyed_onlyType {evaluate : Json → Except EvalError Json} (safe : ∀ v, OnlyType (evaluate v))
    (function : String) (expected : Option Kind) (vs : List Json) :
    OnlyType (keyed function evaluate expected vs) := by
  induction vs generalizing expected with
  | nil => exact .ok []
  | cons v vs ih =>
      unfold keyed
      refine (safe v).bind fun key _ => ?_
      split
      · split
        · split
          · exact (ih _).bind fun _ _ => .ok _
          · exact .type _
        · exact (ih _).bind fun _ _ => .ok _
      · exact .type _

section
variable {arguments : List Argument} (safe : ∀ x ∈ arguments, x.OnlyType)
include safe

theorem keyedArguments_onlyType (function : String) : OnlyType (keyedArguments function arguments) :=
  (Arguments.value_onlyType _ _).bind fun _ _ =>
    (Arguments.expression_onlyType _ _).bind fun _ given =>
      keyed_onlyType (Arguments.expression_given safe given) function none _

theorem body_onlyType (b : Builtin) : OnlyType (b.body arguments) := by
  have one (finish : Json → Json) (index : Nat) :
      OnlyType (Arguments.value arguments index >>= fun v => pure (finish v)) :=
    (Arguments.value_onlyType _ _).bind fun _ _ => .ok _
  have number (finish : Number.Binary64 → Json) :
      OnlyType (Arguments.number arguments 0 >>= fun x => pure (finish x)) :=
    (Arguments.number_onlyType _ _).bind fun _ _ => .ok _
  have strings (finish : String → String → Json) : OnlyType (Arguments.string arguments 0 >>= fun s =>
      Arguments.string arguments 1 >>= fun t => pure (finish s t)) :=
    (Arguments.string_onlyType _ _).bind fun _ _ =>
      (Arguments.string_onlyType _ _).bind fun _ _ => .ok _
  have keys (function : String) (finish : List (Json × Json) → Json) :
      OnlyType (keyedArguments function arguments >>= fun pairs => pure (finish pairs)) :=
    (keyedArguments_onlyType safe function).bind fun _ _ => .ok _
  cases b with
  | abs | ceil | floor => exact number _
  | endsWith | startsWith => exact strings _
  | sortBy | minBy | maxBy => exact keys _ _
  | notNull => exact .ok _
  | contains =>
      exact (Arguments.value_onlyType _ _).bind fun _ _ =>
        (Arguments.value_onlyType _ _).bind fun _ _ => .ok _
  | join =>
      exact (Arguments.string_onlyType _ _).bind fun _ _ =>
        (Arguments.value_onlyType _ _).bind fun _ _ => .ok _
  | merge => exact (OnlyType.mapM fun _ _ => Arguments.value_onlyType _ _).bind fun _ _ => .ok _
  | map =>
      exact (Arguments.expression_onlyType _ _).bind fun _ given =>
        (Arguments.value_onlyType _ _).bind fun _ _ =>
          (OnlyType.mapM fun v _ => Arguments.expression_given safe given v).bind fun _ _ => .ok _
  | _ => exact one _ 0

end

end Builtin

namespace Signature

theorem checkTypes_onlyType (s : Signature) (function : String) (index : Nat) (arguments : List Argument) :
    OnlyType (s.checkTypes function index arguments) := by
  induction arguments generalizing index with
  | nil => exact .ok ()
  | cons argument rest ih =>
      unfold checkTypes
      split
      · exact .ok ()
      · split
        · exact ih _
        · exact .type _

theorem validate_onlyType {s : Signature} {arguments : List Argument}
    (admitted : s.arity.admits arguments.length = true) (function : String) :
    OnlyType (s.validate function arguments) := by
  rw [validate,if_pos admitted]
  exact s.checkTypes_onlyType function 0 arguments

end Signature

theorem Function.call_onlyType {f : Function} {arguments : List Argument}
    (admitted : f.signature.arity.admits arguments.length = true)
    (body : ∀ current, OnlyType (f.body arguments current)) (silent : Bool) (current : Json) :
    OnlyType (f.call silent arguments current) := by
  have result : OnlyType (f.signature.validate f.name arguments >>= fun _ => f.body arguments current) :=
    (Signature.validate_onlyType admitted f.name).bind fun _ _ => body current
  rw [Function.call_hush]
  rcases Function.hush_cases silent _ with same | ⟨_,null,_⟩
  · exact same ▸ result
  · exact null ▸ .ok Json.null

-- What can be told of a node without running it.
def Expr.Admitted : Expr → Prop
  | .call name arguments =>
    ∃ b : Builtin, b.name = name ∧ b.signature.arity.admits arguments.length = true
  | .slice s => s.step ≠ some 0
  | .literal text => (Json.read text).isSome
  | _ => True

section
variable {silent : Bool} {root : Json}

theorem project_onlyType {run : Json → Except EvalError Json} (each : ∀ v, OnlyType (run v))
    (vs : List Json) : OnlyType (project run vs) := by
  rw [project_mapM]
  exact (OnlyType.mapM fun v _ => each v).bind fun _ _ => .ok _

theorem keepWhere_onlyType {test : Json → Except EvalError Json} (each : ∀ v, OnlyType (test v))
    (vs : List Json) : OnlyType (keepWhere test vs) := by
  induction vs with
  | nil => exact .ok []
  | cons v vs ih => exact (each v).bind fun _ _ => ih.bind fun _ _ => .ok _

-- Wherever the expression is evaluated, also much later inside a function.
def EvalOnlyType (silent : Bool) (root : Json) (e : Expr) : Prop :=
  ∀ v scope, OnlyType (e.eval ⟨.builtins,silent,root⟩ v scope)

theorem evalRest_onlyType {rest : Option Expr} (each : ∀ e ∈ rest, EvalOnlyType silent root e)
    (v : Json) (scope : Scope Json) : OnlyType (evalRest ⟨.builtins,silent,root⟩ rest v scope) := by
  cases rest with
  | none => exact .ok v
  | some e => exact each e rfl v scope

theorem evalBindings_onlyType {bindings : List (String × Expr)}
    (each : ∀ binding ∈ bindings, EvalOnlyType silent root binding.2) (v : Json) (scope : Scope Json) :
    OnlyType (evalBindings ⟨.builtins,silent,root⟩ bindings v scope) := by
  induction bindings generalizing scope with
  | nil => exact .ok scope
  | cons binding bindings ih =>
      refine (each binding (by simp) v scope).bind fun value _ => ?_
      exact ih (fun later present => each later (by simp [present])) _

theorem evalArgument_onlyType (e : Expr) (evaluated : EvalOnlyType silent root e) (v : Json)
    (scope : Scope Json) : OnlyType (e.evalArgument ⟨.builtins,silent,root⟩ v scope) := by
  unfold Expr.evalArgument
  split
  · exact .ok _
  · exact (evaluated v scope).bind fun _ _ => .ok _

theorem evalArgument_safe {e : Expr} {x : Argument}
    (deferred : ∀ inner, e = .reference inner → EvalOnlyType silent root inner)
    (given : e.evalArgument ⟨.builtins,silent,root⟩ v scope = .ok x) : x.OnlyType := by
  unfold Expr.evalArgument at given
  split at given
  · rename_i inner
    cases given
    exact fun element => deferred inner rfl element scope
  · obtain ⟨value,_,made⟩ := bind_ok.mp given
    cases made
    trivial

theorem call_onlyType {name : String} {arguments : List Expr} (admitted : (Expr.call name arguments).Admitted)
    (each : ∀ e ∈ arguments, EvalOnlyType silent root e)
    (deferred : ∀ e, .reference e ∈ arguments → EvalOnlyType silent root e) :
    EvalOnlyType silent root (.call name arguments) := by
  intro v scope
  obtain ⟨b,named,admits⟩ := admitted
  have found : Registry.builtins.get? name = some b.function :=
    Registry.get?_builtins_some.mpr ⟨b,named,rfl⟩
  simp only [Expr.eval,found,evalArguments_mapM]
  refine (OnlyType.mapM fun e present => evalArgument_onlyType e (each e present) v scope).bind ?_
  intro xs mapped
  obtain ⟨count,origin⟩ := mapM_ok mapped
  have safe : ∀ x ∈ xs, x.OnlyType := by
    intro x inside
    obtain ⟨e,present,given⟩ := origin x inside
    exact evalArgument_safe (fun inner same => deferred inner (same ▸ present)) given
  exact Function.call_onlyType (count ▸ admits) (fun _ => Builtin.body_onlyType safe b) silent v

theorem slice_onlyType {s : Slice} (step : s.step ≠ some 0) : EvalOnlyType silent root (.slice s) := by
  intro v scope
  have step : s.step.getD 1 ≠ 0 := by
    cases given : s.step with
    | none => decide
    | some n => intro zero; exact step (by rw [given]; exact congrArg some zero)
  simp only [Expr.eval,sliceValue,if_neg step]
  split <;> exact .ok _

theorem literal_onlyType {text : String} (valid : (Json.read text).isSome) :
    EvalOnlyType silent root (.literal text) := by
  intro v scope
  obtain ⟨value,valid⟩ := Option.isSome_iff_exists.mp valid
  simp only [Expr.eval,Evaluation.readLiteral,valid]
  exact .ok value

section
variable {left right condition : Expr} {rest : Option Expr}
  (first : EvalOnlyType silent root left)
include first

section
variable (later : ∀ e ∈ rest, EvalOnlyType silent root e)
include later

theorem projectArray_onlyType : EvalOnlyType silent root (.projectArray left rest) := by
  intro v scope
  refine (first v scope).bind fun base _ => ?_
  cases base with
  | array elements => exact project_onlyType (fun element => evalRest_onlyType later element scope) _
  | _ => exact .ok _

theorem projectObject_onlyType : EvalOnlyType silent root (.projectObject left rest) := by
  intro v scope
  refine (first v scope).bind fun base _ => ?_
  cases base with
  | object entries => exact project_onlyType (fun element => evalRest_onlyType later element scope) _
  | _ => exact .ok _

theorem filter_onlyType (verdict : EvalOnlyType silent root condition) :
    EvalOnlyType silent root (.filter left condition rest) := by
  intro v scope
  refine (first v scope).bind fun base _ => ?_
  cases base with
  | array elements =>
      refine (keepWhere_onlyType (fun element => verdict element scope) _).bind fun kept _ => ?_
      exact project_onlyType (fun element => evalRest_onlyType later element scope) _
  | _ => exact .ok _

end

section
variable (second : EvalOnlyType silent root right)
include second

theorem or_onlyType : EvalOnlyType silent root (.or left right) := by
  intro v scope
  refine (first v scope).bind fun value _ => ?_
  split
  · exact .ok _
  · exact second v scope

theorem and_onlyType : EvalOnlyType silent root (.and left right) := by
  intro v scope
  refine (first v scope).bind fun value _ => ?_
  split
  · exact second v scope
  · exact .ok _

theorem compare_onlyType (op : Comparison) : EvalOnlyType silent root (.compare op left right) :=
  fun v scope => (first v scope).bind fun _ _ => (second v scope).bind fun _ _ => .ok _

end
end

theorem list_onlyType {elements : List Expr} (each : ∀ e ∈ elements, EvalOnlyType silent root e) :
    EvalOnlyType silent root (.list elements) := by
  intro v scope
  simp only [Expr.eval,evalList_mapM]
  split
  · exact .ok _
  · exact (OnlyType.mapM fun e present => each e present v scope).bind fun _ _ => .ok _

theorem hash_onlyType {entries : List (String × Expr)}
    (each : ∀ entry ∈ entries, EvalOnlyType silent root entry.2) : EvalOnlyType silent root (.hash entries) := by
  intro v scope
  simp only [Expr.eval,evalPairs_mapM]
  split
  · exact .ok _
  · refine (OnlyType.mapM fun entry present => ?_).bind fun _ _ => .ok _
    exact (each entry present v scope).bind fun _ _ => .ok _

theorem letIn_onlyType {bindings : List (String × Expr)} {body : Expr}
    (values : ∀ binding ∈ bindings, EvalOnlyType silent root binding.2)
    (result : EvalOnlyType silent root body) : EvalOnlyType silent root (.letIn bindings body) :=
  fun v _ => (evalBindings_onlyType values v _).bind fun inner _ => result v inner

theorem eval_onlyType (e : Expr) (admitted : e.Everywhere Expr.Admitted) :
    EvalOnlyType silent root e := by
  induction e with
  | current => exact fun v _ => .ok v
  | root => exact fun _ _ => .ok root
  | «variable» name => exact fun _ _ => .ok _
  | field name => exact fun _ _ => .ok _
  | index i => exact fun _ _ => .ok _
  | rawString s => exact fun _ _ => .ok _
  | reference e => exact fun _ _ => .ok _
  | slice s => exact slice_onlyType admitted.node
  | literal text => exact literal_onlyType admitted.node
  | within left right before after | pipe left right before after =>
      have first := before (admitted.child (by simp [Expr.children]))
      have second := after (admitted.child (by simp [Expr.children]))
      intro v scope
      exact (first v scope).bind fun base _ => second base scope
  | flatten e inner | not e inner =>
      have inside := inner (admitted.child (by simp [Expr.children]))
      intro v scope
      exact (inside v scope).bind fun _ _ => .ok _
  | projectArray left rest before each =>
      refine projectArray_onlyType (before (admitted.child (by simp [Expr.children]))) fun e present => ?_
      exact each e present (admitted.child (by simp [Expr.children,Option.mem_toList.mpr present]))
  | projectObject left rest before each =>
      refine projectObject_onlyType (before (admitted.child (by simp [Expr.children]))) fun e present => ?_
      exact each e present (admitted.child (by simp [Expr.children,Option.mem_toList.mpr present]))
  | filter left condition rest before test each =>
      refine filter_onlyType (before (admitted.child (by simp [Expr.children]))) (fun e present => ?_)
        (test (admitted.child (by simp [Expr.children])))
      exact each e present (admitted.child (by simp [Expr.children,Option.mem_toList.mpr present]))
  | or left right before after =>
      exact or_onlyType (before (admitted.child (by simp [Expr.children])))
        (after (admitted.child (by simp [Expr.children])))
  | and left right before after =>
      exact and_onlyType (before (admitted.child (by simp [Expr.children])))
        (after (admitted.child (by simp [Expr.children])))
  | compare op left right before after =>
      exact compare_onlyType (before (admitted.child (by simp [Expr.children])))
        (after (admitted.child (by simp [Expr.children]))) op
  | list elements each => exact list_onlyType fun e present => each e present (admitted.child present)
  | hash entries each =>
      exact hash_onlyType fun entry present =>
        each entry present (admitted.child (List.mem_map_of_mem present))
  | call name arguments each deferred =>
      refine call_onlyType admitted.node (fun e present => each e present (admitted.child present)) ?_
      intro e present
      have reference := admitted.child (e := .call name arguments) present
      exact deferred e present (reference.child (by simp [Expr.children]))
  | letIn bindings body each after =>
      refine letIn_onlyType (fun binding present => ?_) (after (admitted.child (by simp [Expr.children])))
      exact each binding present (admitted.child (List.mem_cons_of_mem _ (List.mem_map_of_mem present)))

end

-- The three layers together: the scanner has read every literal, the shape of the tree fixes
-- every count, and silence hides what is left.
theorem Query.evaluate_safe {source : String} {q : Query} (compiled : Query.compile source = .ok q)
    (calls : ∀ name arguments, Expr.Occurs (.call name arguments) q.tree →
      ∃ b : Builtin, b.name = name ∧ b.signature.arity.admits arguments.length = true)
    (slices : ∀ s, Expr.Occurs (.slice s) q.tree → s.step ≠ some 0) (document : Json) :
    (∃ v, q.evaluate .builtins true document = .ok v) ∧
      ∀ fault, q.evaluate .builtins false document = .error fault → fault.kind = .type := by
  obtain ⟨tree,parsed,rfl⟩ := Query.compile_ok.mp compiled
  obtain ⟨ending,_,reads⟩ := Expr.parse_reads.mp parsed
  have written : Parser.LiteralTokens (fun text => (Json.read text).isSome)
      (Parser.kinds (TokenStream.ofText source).tokens) := by
    intro text inside
    obtain ⟨t,present,same⟩ := List.mem_map.mp inside
    exact (TokenStream.ofText_proper source t present).2 text same
  have admitted : tree.Everywhere Expr.Admitted := by
    intro inner occurs
    cases inner with
    | call name arguments => exact calls name arguments occurs
    | slice s => exact slices s occurs
    | literal text => exact reads.literals written _ occurs text rfl
    | _ => trivial
  refine ⟨?_,eval_onlyType tree admitted document .empty⟩
  cases result : tree.eval ⟨.builtins,true,document⟩ document .empty with
  | ok v => exact ⟨v,result⟩
  | error fault =>
      obtain ⟨fault,rfl⟩ := EvalError.kind_type.mp (eval_onlyType tree admitted document .empty _ result)
      exact absurd result ((eval_silenced tree document .empty).quiet fault)

-- The length of a boolean is a type error inside the reference, and silently null.
theorem Query.evaluate_safe_map :
    let q : Query := ⟨"map(&length(@), @)[::2]",.projectArray (.within
      (.call "map" [.reference (.call "length" [.current]),.current]) (.slice ⟨none,none,some 2⟩)) none⟩
    Query.compile "map(&length(@), @)[::2]" = .ok q ∧
      (∀ name arguments, Expr.Occurs (.call name arguments) q.tree →
        ∃ b : Builtin, b.name = name ∧ b.signature.arity.admits arguments.length = true) ∧
      (∀ s, Expr.Occurs (.slice s) q.tree → s.step ≠ some 0) ∧
      (∃ v, q.evaluate .builtins true (.array [.bool true]) = .ok v) ∧
        ∀ fault, q.evaluate .builtins false (.array [.bool true]) = .error fault → fault.kind = .type := by
  intro q
  have compiled : Query.compile "map(&length(@), @)[::2]" = .ok q := by rfl
  have current : Expr.current.Everywhere Expr.Admitted := .intro trivial nofun
  have slice : (Expr.slice ⟨none,none,some 2⟩).Everywhere Expr.Admitted :=
    .intro (fun zero => nomatch zero) nofun
  have length : (Expr.call "length" [.current]).Everywhere Expr.Admitted :=
    .intro ⟨.length,rfl,rfl⟩ (by simp [Expr.children,current])
  have reference : (Expr.reference (.call "length" [.current])).Everywhere Expr.Admitted :=
    .intro trivial (by simp [Expr.children,length])
  have map : (Expr.call "map" [.reference (.call "length" [.current]),.current]).Everywhere Expr.Admitted :=
    .intro ⟨.map,rfl,rfl⟩ (by simp [Expr.children,reference,current])
  have nodes : q.tree.Everywhere Expr.Admitted :=
    .intro trivial (by simpa [Expr.children,q] using .intro trivial (by simp [Expr.children,map,slice]))
  have calls : ∀ name arguments, Expr.Occurs (.call name arguments) q.tree →
      ∃ b : Builtin, b.name = name ∧ b.signature.arity.admits arguments.length = true :=
    fun name arguments occurs => nodes _ occurs
  have slices : ∀ s, Expr.Occurs (.slice s) q.tree → s.step ≠ some 0 := fun s occurs => nodes _ occurs
  exact ⟨compiled,calls,slices,Query.evaluate_safe compiled calls slices _⟩

end JsonQuery
