import JsonQuery.Query
import JsonQuery.Proofs.Evaluation.Traversal
import JsonQuery.Proofs.Expr.Tree
import JsonQuery.Proofs.Outcome

namespace JsonQuery
open Evaluation

-- The variables that a tree takes from outside. A reference is part of its tree, though it
-- runs later; a binding covers the bindings behind it and the body, but not its own value.
mutual
def Expr.free : Expr → List String
  | .variable name => [name]
  | .within left right | .pipe left right | .or left right | .and left right
  | .compare _ left right => left.free ++ right.free
  | .flatten e | .not e | .reference e => e.free
  | .projectArray left rest | .projectObject left rest => left.free ++ freeRest rest
  | .filter left condition rest => left.free ++ (condition.free ++ freeRest rest)
  | .list elements | .call _ elements => freeList elements
  | .hash entries => freePairs entries
  | .letIn bindings body => freeBindings body.free bindings
  | _ => []
termination_by structural e => e

def freeRest : Option Expr → List String
  | none => []
  | some e => e.free
termination_by structural e => e

def freeList : List Expr → List String
  | [] => []
  | e :: es => e.free ++ freeList es
termination_by structural es => es

def freePairs : List (String × Expr) → List String
  | [] => []
  | (_,e) :: es => e.free ++ freePairs es
termination_by structural es => es

def freeBindings (inner : List String) : List (String × Expr) → List String
  | [] => inner
  | (name,e) :: bs => e.free ++ (freeBindings inner bs).filter (· ≠ name)
termination_by structural bs => bs
end

theorem mem_freeList {es : List Expr} (present : e ∈ es) (free : name ∈ e.free) :
    name ∈ freeList es := by
  induction es with
  | nil => cases present
  | cons first es ih =>
      rw [freeList,List.mem_append]
      rcases List.mem_cons.mp present with rfl | later
      · exact .inl free
      · exact .inr (ih later)

theorem mem_freePairs {es : List (String × Expr)} (present : entry ∈ es) (free : name ∈ entry.2.free) :
    name ∈ freePairs es := by
  induction es with
  | nil => cases present
  | cons first es ih =>
      rw [freePairs,List.mem_append]
      rcases List.mem_cons.mp present with rfl | later
      · exact .inl free
      · exact .inr (ih later)

-- Two scopes that cannot be told apart by the names.
def Scope.Agree (names : List String) (scope scope' : Scope α) : Prop :=
  ∀ name ∈ names, scope.get? name = scope'.get? name

namespace Scope.Agree

variable {scope scope' : Scope α}

theorem left (agree : Agree (first ++ second) scope scope') : Agree first scope scope' :=
  fun name present => agree name (List.mem_append_left second present)

theorem right (agree : Agree (first ++ second) scope scope') : Agree second scope scope' :=
  fun name present => agree name (List.mem_append_right first present)

-- The name that is bound now may have meant two things before.
theorem bound (agree : Agree (names.filter (· ≠ name)) scope scope') (value : α) :
    Agree names (.bind name value scope) (.bind name value scope') := by
  intro other present
  by_cases same : name = other
  · simp [get?,same]
  · have outer := agree other (List.mem_filter.mpr ⟨present,by simp [Ne.symm same]⟩)
    simpa [get?,same] using outer

end Scope.Agree

section
variable {setting : Setting}

-- Evaluation sees a scope through the free variables alone, whatever it is made of and
-- whenever the evaluation is run.
def SeesFree (setting : Setting) (e : Expr) : Prop :=
  ∀ {scope scope' : Scope Json}, scope.Agree e.free scope' → ∀ v,
    e.eval setting v scope = e.eval setting v scope'

theorem evalRest_free {rest : Option Expr} (each : ∀ e ∈ rest, SeesFree setting e)
    (agree : scope.Agree (freeRest rest) scope') :
    (fun element => evalRest setting rest element scope) =
      fun element => evalRest setting rest element scope' := by
  funext element
  cases rest with
  | none => rfl
  | some e => exact each e rfl agree element

-- The two deferred evaluations are one function, so no callee can tell the scopes apart.
theorem evalArgument_free {e : Expr} (evaluated : SeesFree setting e)
    (deferred : ∀ inner, e = .reference inner → SeesFree setting inner)
    (agree : scope.Agree e.free scope') (v : Json) :
    e.evalArgument setting v scope = e.evalArgument setting v scope' := by
  unfold Expr.evalArgument
  split
  · rename_i inner
    have same : (fun element => inner.eval setting element scope) =
        fun element => inner.eval setting element scope' :=
      funext (deferred inner rfl agree)
    rw [same]
  · rw [evaluated agree v]

-- Every binding is read in the scope that those before it have made.
theorem evalBindings_free {bindings : List (String × Expr)} {body : Expr}
    (each : ∀ binding ∈ bindings, SeesFree setting binding.2) (last : SeesFree setting body)
    (agree : scope.Agree (freeBindings body.free bindings) scope') (v : Json) :
    (evalBindings setting bindings v scope >>= fun inner => body.eval setting v inner) =
      (evalBindings setting bindings v scope' >>= fun inner => body.eval setting v inner) := by
  induction bindings generalizing scope scope' with
  | nil => exact last agree v
  | cons binding bindings ih =>
      have value := each binding List.mem_cons_self agree.left v
      simp only [evalBindings,bind_assoc,value]
      congr 1
      funext bound
      exact ih (fun other present => each other (List.mem_cons_of_mem binding present))
        (agree.right.bound bound)

theorem eval_seesFree (e : Expr) : SeesFree setting e := by
  induction e with
  | current | root | field | index | slice | literal | rawString => exact fun _ _ => rfl
  | reference e => exact fun _ _ => rfl
  | «variable» name =>
      intro scope scope' agree v
      have seen := agree name List.mem_cons_self
      simp only [Expr.eval,seen]
  | within left right first second | pipe left right first second =>
      intro scope scope' agree v
      simp only [Expr.eval,first agree.left,second agree.right]
  | flatten e inner | not e inner =>
      intro scope scope' agree v
      simp only [Expr.eval,inner agree]
  | projectArray left rest first each | projectObject left rest first each =>
      intro scope scope' agree v
      simp only [Expr.eval,first agree.left,evalRest_free each agree.right]
  | filter left condition rest first test each =>
      intro scope scope' agree v
      simp only [Expr.eval,first agree.left,test agree.right.left,evalRest_free each agree.right.right]
  | or left right first second | and left right first second =>
      intro scope scope' agree v
      simp only [Expr.eval,first agree.left,second agree.right]
  | compare op left right first second =>
      intro scope scope' agree v
      simp only [Expr.eval,first agree.left,second agree.right]
  | list elements each =>
      intro scope scope' agree v
      have values := mapM_congr fun e present =>
        each e present (fun name free => agree name (mem_freeList present free)) v
      simp only [Expr.eval,evalList_mapM,values]
  | hash entries each =>
      intro scope scope' agree v
      have values : ∀ entry ∈ entries, entry.2.eval setting v scope = entry.2.eval setting v scope' :=
        fun entry present =>
          each entry present (fun name free => agree name (mem_freePairs present free)) v
      have pairs := mapM_congr (f := fun entry : String × Expr => do
        return (entry.1,← entry.2.eval setting v scope)) fun entry present => by rw [values entry present]
      simp only [Expr.eval,evalPairs_mapM,pairs]
  | call name arguments each deferred =>
      intro scope scope' agree v
      have values := mapM_congr fun e present =>
        evalArgument_free (each e present) (fun inner same => deferred inner (same ▸ present))
          (fun name free => agree name (mem_freeList present free)) v
      simp only [Expr.eval,evalArguments_mapM,values]
  | letIn bindings body each last =>
      intro scope scope' agree v
      have child : (Scope.child scope).Agree (freeBindings body.free bindings) (.child scope') := agree
      exact evalBindings_free each last child v

end

-- Scopes of any history: what they bind beside the free variables, and in which frames,
-- leaves no trace in a result.
theorem Expr.eval_free (setting : Setting) (e : Expr) (v : Json) (scope scope' : Scope Json)
    (agree : ∀ name ∈ e.free, scope.get? name = scope'.get? name) :
    e.eval setting v scope = e.eval setting v scope' :=
  eval_seesFree e agree v

-- `let $x = $y in map(&[$x, $z], @)`: the outer `$x` is not free, and the reference keeps
-- the inner one though it runs inside the function.
theorem Expr.eval_free_shadowed :
    let e : Expr := .letIn [("x",.variable "y")]
      (.call "map" [.reference (.list [.variable "x",.variable "z"]),.current])
    let near : Scope Json := .bind "y" (.bool true) (.bind "x" .null (.bind "z" (.string "a") .empty))
    let far : Scope Json :=
      .child (.bind "z" (.string "a") (.child (.bind "y" (.bool true) (.bind "z" .null .empty))))
    (∀ name ∈ e.free, near.get? name = far.get? name) ∧ near.get? "x" ≠ far.get? "x" ∧
      e.eval ⟨.builtins,false,.null⟩ (.array [.bool false]) near =
        e.eval ⟨.builtins,false,.null⟩ (.array [.bool false]) far ∧
      e.eval ⟨.builtins,false,.null⟩ (.array [.bool false]) far =
        .ok (.array [.array [.bool true,.string "a"]]) := by
  intro e near far
  have names : e.free = ["y","z"] := by decide
  have agree : ∀ name ∈ e.free, near.get? name = far.get? name := by
    rw [names]
    exact List.forall_mem_cons.mpr ⟨rfl,List.forall_mem_cons.mpr ⟨rfl,nofun⟩⟩
  exact ⟨agree,nofun,Expr.eval_free _ e _ near far agree,rfl⟩

end JsonQuery
