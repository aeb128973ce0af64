import Mathlib.Data.List.Forall2
import JsonQuery.Query
import JsonQuery.Proofs.Evaluation.Traversal
import JsonQuery.Proofs.Expr.Tree
import JsonQuery.Proofs.Function.Call
import JsonQuery.Proofs.Function.Registry

namespace JsonQuery
open Evaluation

-- The second run keeps what the first gives and every fault of the first but a type
-- error; where the first fails with one, nothing is said of the second.
structure Follows (same : α → β → Prop) (strict : Except EvalError α) (silent : Except EvalError β) :
    Prop where
  value : ∀ a, strict = .ok a → ∃ b, silent = .ok b ∧ same a b
  fault : ∀ e, strict = .error e → e.kind ≠ .type → silent = .error e

def Quiet (r : Except EvalError α) : Prop := ∀ fault, r ≠ .error (.type fault)

structure Silenced (same : α → β → Prop) (strict : Except EvalError α) (silent : Except EvalError β) :
    Prop extends Follows same strict silent where
  quiet : Quiet silent

namespace Follows

theorem ok {same : α → β → Prop} (alike : same a b) : Follows same (.ok a) (.ok b) :=
  ⟨fun _ given => ⟨b,rfl,Except.ok.inj given ▸ alike⟩,fun _ given => nomatch given⟩

theorem refl (r : Except EvalError α) : Follows Eq r r :=
  ⟨fun a given => ⟨a,given,rfl⟩,fun _ given _ => given⟩

theorem typeError {same : α → β → Prop} (fault : TypeFault) (silent : Except EvalError β) :
    Follows same (.error (.type fault)) silent := by
  refine ⟨fun _ given => (nomatch given),?_⟩
  intro e given different
  cases given
  exact absurd rfl different

theorem bind {same : α → β → Prop} {same' : γ → δ → Prop} {f : α → Except EvalError γ}
    {g : β → Except EvalError δ} (first : Follows same x y)
    (second : ∀ a b, same a b → Follows same' (f a) (g b)) : Follows same' (x >>= f) (y >>= g) := by
  cases x with
  | error e =>
      refine ⟨fun _ given => (nomatch given),?_⟩
      intro found given different
      cases given
      rw [first.fault _ rfl different]
      rfl
  | ok a =>
      obtain ⟨b,given,alike⟩ := first.value a rfl
      rw [given]
      exact second a b alike

theorem trans {x y z : Except EvalError α} (first : Follows Eq x y) (second : Follows Eq y z) :
    Follows Eq x z := by
  refine ⟨?_,fun e given different => second.fault e (first.fault e given different) different⟩
  intro a given
  obtain ⟨b,middle,rfl⟩ := first.value a given
  exact second.value a middle

theorem of_eq (equal : x = y) : Follows Eq x y := equal ▸ .refl x

end Follows

namespace Quiet

theorem ok (a : α) : Quiet (.ok a) := fun _ given => nomatch given

theorem bind {f : α → Except EvalError β} (first : Quiet x) (second : ∀ a, Quiet (f a)) :
    Quiet (x >>= f) := by
  cases x with
  | error e => intro fault given; cases given; exact first _ rfl
  | ok a => exact second a

end Quiet

namespace Silenced

theorem ok (a : α) : Silenced Eq (.ok a) (.ok a) := ⟨.refl _,.ok a⟩

theorem error {e : EvalError} (different : e.kind ≠ .type) :
    Silenced Eq (.error e : Except EvalError α) (.error e) :=
  ⟨.refl _,fun _ given => by cases given; exact different rfl⟩

theorem bind {x y : Except EvalError α} {f g : α → Except EvalError β} (first : Silenced Eq x y)
    (second : ∀ a, Silenced Eq (f a) (g a)) : Silenced Eq (x >>= f) (y >>= g) :=
  ⟨first.toFollows.bind fun a _ equal => equal ▸ (second a).toFollows,
    first.quiet.bind fun a => (second a).quiet⟩

end Silenced

-- The same arguments in both runs: equal values, and references whose evaluations are
-- themselves silenced.
inductive Alike : Argument → Argument → Prop where
  | value (v : Json) : Alike (.value v) (.value v)
  | expression (e : Expr) (each : ∀ v, Silenced Eq (strict v) (silent v)) :
      Alike (.expression e strict) (.expression e silent)

theorem Alike.form (alike : Alike x y) : x.form = y.form := by cases alike <;> rfl
theorem Alike.accepts (alike : Alike x y) (types : List ParameterType) :
    x.accepts types = y.accepts types := by cases alike <;> rfl
theorem Alike.value? (alike : Alike x y) : x.value? = y.value? := by cases alike <;> rfl

section
variable {xs ys : List Argument}

theorem checkTypes_alike (s : Signature) (function : String) (index : Nat)
    (alike : List.Forall₂ Alike xs ys) :
    s.checkTypes function index xs = s.checkTypes function index ys := by
  induction alike generalizing index with
  | nil => rfl
  | cons one _ ih => simp only [Signature.checkTypes,one.accepts,one.form,ih]

theorem validate_alike (s : Signature) (function : String) (alike : List.Forall₂ Alike xs ys) :
    s.validate function xs = s.validate function ys := by
  rw [Signature.validate,Signature.validate,alike.length_eq,checkTypes_alike s function 0 alike]

theorem getElem?_alike (alike : List.Forall₂ Alike xs ys) (index : Nat) :
    xs[index]? = none ∧ ys[index]? = none ∨
      ∃ x y, xs[index]? = some x ∧ ys[index]? = some y ∧ Alike x y := by
  induction alike generalizing index with
  | nil => simp
  | cons one _ ih =>
      cases index with
      | zero => exact .inr ⟨_,_,rfl,rfl,one⟩
      | succ index => simpa using ih index

theorem value_alike (alike : List.Forall₂ Alike xs ys) (index : Nat) :
    Arguments.value xs index = Arguments.value ys index := by
  unfold Arguments.value
  rcases getElem?_alike alike index with ⟨left,right⟩ | ⟨x,y,left,right,one⟩
  · rw [left,right]
  · rw [left,right,Option.bind_some,Option.bind_some,one.value?]

theorem number_alike (alike : List.Forall₂ Alike xs ys) (index : Nat) :
    Arguments.number xs index = Arguments.number ys index := by
  simp only [Arguments.number,value_alike alike]

theorem string_alike (alike : List.Forall₂ Alike xs ys) (index : Nat) :
    Arguments.string xs index = Arguments.string ys index := by
  simp only [Arguments.string,value_alike alike]

theorem notNullBody_alike (alike : List.Forall₂ Alike xs ys) :
    Builtin.notNullBody xs = Builtin.notNullBody ys := by
  have values : xs.filterMap Argument.value? = ys.filterMap Argument.value? := by
    induction alike with
    | nil => rfl
    | cons one _ ih => simp only [List.filterMap_cons,one.value?,ih]
  rw [Builtin.notNullBody,values,Builtin.notNullBody]

theorem expression_alike (alike : List.Forall₂ Alike xs ys) (index : Nat) :
    Follows (fun strict silent => ∀ v, Silenced Eq (strict v) (silent v))
      (Arguments.expression xs index) (Arguments.expression ys index) := by
  unfold Arguments.expression
  rcases getElem?_alike alike index with ⟨left,right⟩ | ⟨x,y,left,right,one⟩
  · rw [left]; exact .typeError _ _
  · rw [left,right]
    cases one with
    | value v => exact .typeError _ _
    | expression e each => exact .ok each

end

theorem mapM_alike {same : β → γ → Prop} {strict : α → Except EvalError β}
    {silent : α → Except EvalError γ} (items : List α)
    (each : ∀ item ∈ items, Silenced same (strict item) (silent item)) :
    Silenced (List.Forall₂ same) (items.mapM strict) (items.mapM silent) := by
  induction items with
  | nil => exact ⟨.ok .nil,.ok []⟩
  | cons item items ih =>
      have first := each item (by simp)
      have rest := ih fun later present => each later (by simp [present])
      rw [List.mapM_cons,List.mapM_cons]
      exact ⟨first.toFollows.bind fun _ _ one => rest.toFollows.bind fun _ _ more => .ok (.cons one more),
        first.quiet.bind fun _ => rest.quiet.bind fun _ => .ok _⟩

theorem mapM_silenced {strict silent : α → Except EvalError β} (items : List α)
    (each : ∀ item ∈ items, Silenced Eq (strict item) (silent item)) :
    Silenced Eq (items.mapM strict) (items.mapM silent) := by
  have together := mapM_alike items each
  rwa [List.forall₂_eq_eq_eq] at together

section
variable {strict silent : Json → Except EvalError Json} (each : ∀ v, Silenced Eq (strict v) (silent v))
include each

theorem project_silenced (vs : List Json) : Silenced Eq (project strict vs) (project silent vs) := by
  rw [project_mapM,project_mapM]
  exact (mapM_silenced vs fun v _ => each v).bind fun _ => .ok _

theorem keepWhere_silenced (vs : List Json) :
    Silenced Eq (keepWhere strict vs) (keepWhere silent vs) := by
  induction vs with
  | nil => exact .ok []
  | cons v vs ih => exact (each v).bind fun _ => ih.bind fun _ => .ok _

-- Its own type errors are the same in both runs, since the keys before them are.
theorem keyed_follows (function : String) (expected : Option Kind) (vs : List Json) :
    Follows Eq (Builtin.keyed function strict expected vs) (Builtin.keyed function silent expected vs) := by
  induction vs generalizing expected with
  | nil => exact .refl _
  | cons v vs ih =>
      unfold Builtin.keyed
      refine (each v).toFollows.bind fun key _ same => ?_
      subst same
      split
      · split
        · split
          · exact (ih _).bind fun _ _ same => same ▸ .refl _
          · exact .refl _
        · exact (ih _).bind fun _ _ same => same ▸ .refl _
      · exact .refl _

end

theorem keyedArguments_follows (function : String) (alike : List.Forall₂ Alike xs ys) :
    Follows Eq (Builtin.keyedArguments function xs) (Builtin.keyedArguments function ys) := by
  unfold Builtin.keyedArguments
  rw [value_alike alike]
  refine (Follows.refl _).bind fun subject _ same => same ▸ ?_
  exact (expression_alike alike 1).bind fun _ _ each => keyed_follows each function none _

theorem body_follows (b : Builtin) (alike : List.Forall₂ Alike xs ys) :
    Follows Eq (b.body xs) (b.body ys) := by
  cases b with
  | map =>
      refine (expression_alike alike 0).bind fun _ _ each => ?_
      rw [value_alike alike]
      refine (Follows.refl _).bind fun subject _ same => same ▸ ?_
      exact (mapM_silenced _ fun v _ => each v).toFollows.bind fun _ _ same => same ▸ .refl _
  | sortBy => exact (keyedArguments_follows _ alike).bind fun _ _ same => same ▸ .refl _
  | minBy => exact (keyedArguments_follows _ alike).bind fun _ _ same => same ▸ .refl _
  | maxBy => exact (keyedArguments_follows _ alike).bind fun _ _ same => same ▸ .refl _
  | notNull => exact .of_eq (by simp only [Builtin.body,notNullBody_alike alike])
  | merge =>
      have each : Arguments.value xs = Arguments.value ys := funext (value_alike alike)
      exact .of_eq (by simp only [Builtin.body,each,alike.length_eq])
  | _ => exact .of_eq (by simp only [Builtin.body,value_alike alike,number_alike alike,string_alike alike])

theorem call_strict (f : Function) (xs : List Argument) (current : Json) :
    f.call false xs current = f.signature.validate f.name xs >>= fun _ => f.body xs current := by
  rw [Function.call_hush]
  exact Function.hush_quiet nofun

theorem call_quiet (f : Function) (xs : List Argument) (current : Json) :
    Quiet (f.call true xs current) := by
  intro fault given
  have failed := Function.hush_raised (Function.call_hush true f xs current ▸ given)
  rw [Function.call_hush,failed] at given
  cases given

-- Silence changes a call only where it fails with a type error.
theorem call_silent (f : Function) (xs : List Argument) (current : Json) :
    Follows Eq (f.call false xs current) (f.call true xs current) := by
  rw [call_strict,Function.call_hush]
  rcases Function.hush_cases true (f.signature.validate f.name xs >>= fun _ => f.body xs current) with
    same | ⟨_,_,fault,failed⟩
  · exact .of_eq same.symm
  · rw [failed]
    exact .typeError _ _

theorem call_silenced (b : Builtin) (alike : List.Forall₂ Alike xs ys) (current : Json) :
    Silenced Eq (b.function.call false xs current) (b.function.call true ys current) := by
  refine ⟨?_,call_quiet _ _ _⟩
  have strict : Follows Eq (b.function.call false xs current) (b.function.call false ys current) := by
    rw [call_strict,call_strict,validate_alike _ _ alike]
    exact (Follows.refl _).bind fun _ _ _ => body_follows b alike
  exact strict.trans (call_silent _ _ _)

section
variable (root : Json)

def EvalSilenced (e : Expr) : Prop := ∀ v scope,
  Silenced Eq (e.eval ⟨.builtins,false,root⟩ v scope) (e.eval ⟨.builtins,true,root⟩ v scope)

variable {root}

theorem evalRest_silenced {rest : Option Expr} (each : ∀ e ∈ rest, EvalSilenced root e)
    (v : Json) (scope : Scope Json) :
    Silenced Eq (evalRest ⟨.builtins,false,root⟩ rest v scope)
      (evalRest ⟨.builtins,true,root⟩ rest v scope) := by
  cases rest with
  | none => exact .ok v
  | some e => exact each e rfl v scope

-- A bound value is the same in both runs, so the scopes stay equal.
theorem evalBindings_silenced {bindings : List (String × Expr)}
    (each : ∀ binding ∈ bindings, EvalSilenced root binding.2) (v : Json) (scope : Scope Json) :
    Silenced Eq (evalBindings ⟨.builtins,false,root⟩ bindings v scope)
      (evalBindings ⟨.builtins,true,root⟩ bindings v scope) := by
  induction bindings generalizing scope with
  | nil => exact .ok scope
  | cons binding bindings ih =>
      refine (each binding (by simp) v scope).bind fun value => ?_
      exact ih (fun later present => each later (by simp [present])) _

theorem evalArgument_silenced (e : Expr) (evaluated : EvalSilenced root e)
    (deferred : ∀ inner, e = .reference inner → EvalSilenced root inner) (v : Json) (scope : Scope Json) :
    Silenced Alike (e.evalArgument ⟨.builtins,false,root⟩ v scope)
      (e.evalArgument ⟨.builtins,true,root⟩ v scope) := by
  unfold Expr.evalArgument
  split
  · rename_i inner
    exact ⟨.ok (.expression inner fun element => deferred inner rfl element scope),.ok _⟩
  · exact ⟨(evaluated v scope).toFollows.bind fun a _ same => same ▸ .ok (.value a),
      (evaluated v scope).quiet.bind fun _ => .ok _⟩

theorem slice_silenced (s : Slice) : EvalSilenced root (.slice s) := by
  intro v scope
  simp only [Expr.eval,sliceValue]
  split
  · exact .error nofun
  · split <;> exact .ok _

theorem literal_silenced (text : String) : EvalSilenced root (.literal text) := by
  intro v scope
  simp only [Expr.eval,Evaluation.readLiteral]
  split
  · exact .ok _
  · exact .error nofun

section
variable {left right condition : Expr} {rest : Option Expr} (before : EvalSilenced root left)
include before

section
variable (each : ∀ e ∈ rest, EvalSilenced root e)
include each

theorem projectArray_silenced : EvalSilenced root (.projectArray left rest) := by
  intro v scope
  refine (before v scope).bind fun base => ?_
  cases base with
  | array elements => exact project_silenced (fun element => evalRest_silenced each element scope) _
  | _ => exact .ok _

theorem projectObject_silenced : EvalSilenced root (.projectObject left rest) := by
  intro v scope
  refine (before v scope).bind fun base => ?_
  cases base with
  | object entries => exact project_silenced (fun element => evalRest_silenced each element scope) _
  | _ => exact .ok _

theorem filter_silenced (test : EvalSilenced root condition) :
    EvalSilenced root (.filter left condition rest) := by
  intro v scope
  refine (before v scope).bind fun base => ?_
  cases base with
  | array elements =>
      refine (keepWhere_silenced (fun element => test element scope) _).bind fun kept => ?_
      exact project_silenced (fun element => evalRest_silenced each element scope) _
  | _ => exact .ok _

end

section
variable (after : EvalSilenced root right)
include after

theorem or_silenced : EvalSilenced root (.or left right) := by
  intro v scope
  refine (before v scope).bind fun first => ?_
  split
  · exact .ok _
  · exact after v scope

theorem and_silenced : EvalSilenced root (.and left right) := by
  intro v scope
  refine (before v scope).bind fun first => ?_
  split
  · exact after v scope
  · exact .ok _

theorem compare_silenced (op : Comparison) : EvalSilenced root (.compare op left right) :=
  fun v scope => (before v scope).bind fun _ => (after v scope).bind fun _ => .ok _

end
end

theorem list_silenced {elements : List Expr} (each : ∀ e ∈ elements, EvalSilenced root e) :
    EvalSilenced root (.list elements) := by
  intro v scope
  simp only [Expr.eval,evalList_mapM]
  split
  · exact .ok _
  · exact (mapM_silenced _ fun e present => each e present v scope).bind fun _ => .ok _

theorem hash_silenced {entries : List (String × Expr)} (each : ∀ entry ∈ entries, EvalSilenced root entry.2) :
    EvalSilenced root (.hash entries) := by
  intro v scope
  simp only [Expr.eval,evalPairs_mapM]
  split
  · exact .ok _
  · refine (mapM_silenced _ fun entry present => ?_).bind fun _ => .ok _
    exact (each entry present v scope).bind fun _ => .ok _

-- Both runs find the same function or miss it, and go into it with arguments that are alike.
theorem callNode_silenced {name : String} {arguments : List Expr}
    (each : ∀ e ∈ arguments, EvalSilenced root e)
    (deferred : ∀ e, .reference e ∈ arguments → EvalSilenced root e) :
    EvalSilenced root (.call name arguments) := by
  intro v scope
  simp only [Expr.eval]
  split
  · exact .error nofun
  · rename_i f found
    obtain ⟨b,_,rfl⟩ := Registry.get?_builtins_some.mp found
    rw [evalArguments_mapM,evalArguments_mapM]
    have together := mapM_alike arguments fun e present =>
      evalArgument_silenced e (each e present) (fun inner same => deferred inner (same ▸ present)) v scope
    exact ⟨together.toFollows.bind fun xs ys alike => (call_silenced b alike v).toFollows,
      together.quiet.bind fun ys => call_quiet _ ys v⟩

theorem letIn_silenced {bindings : List (String × Expr)} {body : Expr}
    (each : ∀ binding ∈ bindings, EvalSilenced root binding.2) (after : EvalSilenced root body) :
    EvalSilenced root (.letIn bindings body) :=
  fun v _ => (evalBindings_silenced each v _).bind fun inner => after v inner

theorem eval_silenced (e : Expr) : EvalSilenced root e := by
  induction e with
  | current => exact fun v _ => .ok v
  | root => exact fun _ _ => .ok root
  | «variable» name => exact fun _ _ => .ok _
  | field name => exact fun _ _ => .ok _
  | index i => exact fun _ _ => .ok _
  | rawString s => exact fun _ _ => .ok _
  | reference e => exact fun _ _ => .ok _
  | slice s => exact slice_silenced s
  | literal text => exact literal_silenced text
  | within left right before after | pipe left right before after =>
      exact fun v scope => (before v scope).bind fun base => after base scope
  | flatten e inner | not e inner => exact fun v scope => (inner v scope).bind fun _ => .ok _
  | projectArray left rest before each => exact projectArray_silenced before each
  | projectObject left rest before each => exact projectObject_silenced before each
  | filter left condition rest before test each => exact filter_silenced before each test
  | or left right before after => exact or_silenced before after
  | and left right before after => exact and_silenced before after
  | compare op left right before after => exact compare_silenced before after op
  | list elements each => exact list_silenced each
  | hash entries each => exact hash_silenced each
  | call name arguments each deferred => exact callNode_silenced each deferred
  | letIn bindings body each after => exact letIn_silenced each after

theorem EvalError.kind_type {e : EvalError} : e.kind = .type ↔ ∃ fault, e = .type fault := by
  cases e <;> simp [EvalError.kind]

-- A silent run has no type error, keeps every value of the strict run, and keeps every
-- other fault of it.
theorem Expr.eval_silent (root : Json) (e : Expr) (v : Json) (scope : Scope Json) :
    (∀ fault, e.eval ⟨.builtins,true,root⟩ v scope = .error fault → fault.kind ≠ .type) ∧
    (∀ value, e.eval ⟨.builtins,false,root⟩ v scope = .ok value →
      e.eval ⟨.builtins,true,root⟩ v scope = .ok value) ∧
    ∀ fault, e.eval ⟨.builtins,false,root⟩ v scope = .error fault → fault.kind ≠ .type →
      e.eval ⟨.builtins,true,root⟩ v scope = .error fault := by
  have silenced := @eval_silenced root e v scope
  refine ⟨fun fault given type => ?_,fun value given => ?_,silenced.fault⟩
  · obtain ⟨fault,rfl⟩ := EvalError.kind_type.mp type
    exact silenced.quiet fault given
  · obtain ⟨other,kept,rfl⟩ := silenced.value value given
    exact kept

-- A fault of another kind comes out of a deferred expression in both runs.
theorem Expr.eval_silent_deferred :
    let zero : Expr := .call "map" [.reference (.slice ⟨none,none,some 0⟩),.list [.current]]
    zero.eval ⟨.builtins,false,.null⟩ (.string "a") .empty = .error (.value .zeroStep) ∧
      zero.eval ⟨.builtins,true,.null⟩ (.string "a") .empty = .error (.value .zeroStep) := by
  intro zero
  have strict : zero.eval ⟨.builtins,false,.null⟩ (.string "a") .empty = .error (.value .zeroStep) := by
    rfl
  exact ⟨strict,(Expr.eval_silent .null zero (.string "a") .empty).2.2 _ strict nofun⟩

end
end JsonQuery
