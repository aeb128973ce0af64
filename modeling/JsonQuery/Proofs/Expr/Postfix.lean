import JsonQuery.Builtin.Body
import JsonQuery.Evaluation
import JsonQuery.Expr.Fragment
import JsonQuery.Proofs.Evaluation.Traversal

namespace JsonQuery
open Evaluation

-- The four forms that a dot may select.
inductive Selection where
  | field (name : String)
  | call (name : String) (arguments : List Expr)
  | list (elements : List Expr)
  | hash (entries : List (String × Expr))

def Selection.expr : Selection → Expr
  | .field name => .field name
  | .call name arguments => .call name arguments
  | .list elements => .list elements
  | .hash entries => .hash entries

theorem Selection.expr_plain (s : Selection) : s.expr.isProjection = false := by
  cases s <;> rfl

-- A fragment that does not flatten; only a selection is confined.
inductive Piece where
  | select (s : Selection)
  | values
  | index (i : Int)
  | slice (s : Slice)
  | wildcard
  | filter (condition : Expr)

def Piece.fragment : Piece → Fragment
  | .select s => .select s.expr
  | .values => .values
  | .index i => .index i
  | .slice s => .slice s
  | .wildcard => .wildcard
  | .filter condition => .filter condition

-- Everything that may stand behind an operand.
inductive Postfix where
  | piece (p : Piece)
  | flatten

namespace Postfix

def attachedTo (e : Expr) : Postfix → Expr
  | .piece p => e.attach p.fragment
  | .flatten => e.flattened

-- What stands before the last flattening, if there is one, and the pieces behind it.
def splitLast : List Postfix → Option (List Postfix) × List Piece
  | [] => (none,[])
  | .flatten :: rest =>
    match splitLast rest with
    | (some before,after) => (some (.flatten :: before),after)
    | (none,after) => (some [],after)
  | .piece p :: rest =>
    match splitLast rest with
    | (some before,after) => (some (.piece p :: before),after)
    | (none,after) => (none,p :: after)

-- The two halves put together again.
def joined : Option (List Postfix) × List Piece → List Postfix
  | (some before,after) => before ++ .flatten :: after.map .piece
  | (none,pieces) => pieces.map .piece

theorem splitLast_joined (all : List Postfix) : joined (splitLast all) = all := by
  induction all with
  | nil => rfl
  | cons first rest ih =>
      cases first with
      | piece p =>
          unfold splitLast
          split <;> rename_i before after split <;> rw [split] at ih <;> simp [joined,← ih]
      | flatten =>
          unfold splitLast
          split <;> rename_i before after split <;> rw [split] at ih <;> simp [joined,← ih]

theorem splitLast_shorter (split : splitLast all = (some before,after)) :
    before.length < all.length := by
  have whole := splitLast_joined all
  rw [split] at whole
  have lengths := congrArg List.length whole
  simp only [joined,List.length_append,List.length_cons] at lengths
  omega

end Postfix

-- The reference side: a list of pieces acts on a value, and no tree is built.

def gather (run : Json → Except EvalError Json) : List Json → Except EvalError (List Json)
  | [] => .ok []
  | v :: vs => do
    let first ← run v
    let rest ← gather run vs
    return if first.isNull then rest else first :: rest

def unnested : List Json → List Json
  | [] => []
  | .array inner :: vs => inner ++ unnested vs
  | v :: vs => v :: unnested vs

-- Every element is tested before anything is done with those that pass.
def passing (test : Json → Except EvalError Json) (vs : List Json) :
    Except EvalError (List Json) := do
  let verdicts ← vs.mapM test
  return ((vs.zip verdicts).filter fun pair => pair.2.truthy).map (·.1)

def onArray (act : List Json → Except EvalError (List Json)) : Json → Except EvalError Json
  | .array elements => do return .array (← act elements)
  | _ => .ok .null

def onObject (act : List Json → Except EvalError (List Json)) : Json → Except EvalError Json
  | .object entries => do return .array (← act (entries.map (·.2)))
  | _ => .ok .null

-- Without a flattening the first piece acts, and the others on each of its results. A
-- slice of step zero is refused before its subject is looked at.
def piecewise (setting : Setting) (scope : Scope Json) :
    List Piece → Json → Except EvalError Json
  | [],v => .ok v
  | .select s :: rest,v => do
    let selected ← s.expr.eval setting v scope
    piecewise setting scope rest selected
  | .index i :: rest,v => piecewise setting scope rest (v.atIndex i)
  | .wildcard :: rest,v => onArray (gather (piecewise setting scope rest)) v
  | .slice s :: rest,v =>
    if s.step = some 0 then .error (.value .zeroStep)
    else onArray (fun elements => gather (piecewise setting scope rest)
      (Json.sliceElements elements s (s.step.getD 1))) v
  | .values :: rest,v => onObject (gather (piecewise setting scope rest)) v
  | .filter condition :: rest,v => onArray (fun elements => do
      let kept ← passing (fun element => condition.eval setting element scope) elements
      gather (piecewise setting scope rest) kept) v

-- The last flattening divides the list: one array from what stands before it, and the
-- pieces behind it act on each element with one level of nesting gone.
def meaning (setting : Setting) (scope : Scope Json) (all : List Postfix) (v : Json) :
    Except EvalError Json :=
  match _divided : Postfix.splitLast all with
  | (none,pieces) => piecewise setting scope pieces v
  | (some before,after) => do
    let whole ← meaning setting scope before v
    onArray (fun elements => gather (piecewise setting scope after) (unnested elements)) whole
termination_by all.length
decreasing_by exact Postfix.splitLast_shorter _divided

theorem project_gather (run : Json → Except EvalError Json) (vs : List Json) :
    project run vs = do return .array (← gather run vs) := by
  have kept : (vs.mapM run).map (fun results => results.filter fun v => !v.isNull) =
      gather run vs := by
    induction vs with
    | nil => rfl
    | cons v vs ih =>
        rw [List.mapM_cons,gather,← ih]
        cases run v with
        | error e => rfl
        | ok first =>
            cases vs.mapM run with
            | error e => rfl
            | ok rest => cases null : first.isNull <;> simp [Except.map,bind,Except.bind,pure,Except.pure,null]
  rw [← kept,project_mapM]
  cases vs.mapM run <;> rfl

theorem keepWhere_passing (test : Json → Except EvalError Json) (vs : List Json) :
    keepWhere test vs = passing test vs := by
  induction vs with
  | nil => rfl
  | cons v vs ih =>
      rw [keepWhere,ih,passing,passing,List.mapM_cons]
      cases test v with
      | error e => rfl
      | ok verdict =>
          cases vs.mapM test with
          | error e => rfl
          | ok rest => cases held : verdict.truthy <;> simp [bind,Except.bind,pure,Except.pure,held]

theorem flatten_unnested (elements : List Json) :
    (Json.array elements).flatten = .array (unnested elements) := by
  rw [Json.flatten]
  congr 1
  induction elements with
  | nil => rfl
  | cons v vs ih => cases v <;> simp [unnested,← ih]

namespace Expr

def attachAll (e : Expr) (all : List Postfix) : Expr := all.foldl Postfix.attachedTo e

@[simp] theorem attachAll_nil (e : Expr) : e.attachAll [] = e := rfl
@[simp] theorem attachAll_cons (e : Expr) (first : Postfix) (rest : List Postfix) :
    e.attachAll (first :: rest) = (first.attachedTo e).attachAll rest := rfl
theorem attachAll_append (e : Expr) (first second : List Postfix) :
    e.attachAll (first ++ second) = (e.attachAll first).attachAll second :=
  List.foldl_append

def attachPieces (e : Expr) (pieces : List Piece) : Expr := e.attachAll (pieces.map .piece)

@[simp] theorem attachPieces_nil (e : Expr) : e.attachPieces [] = e := rfl
@[simp] theorem attachPieces_cons (e : Expr) (p : Piece) (rest : List Piece) :
    e.attachPieces (p :: rest) = (e.attach p.fragment).attachPieces rest := rfl

theorem attach_plain {e : Expr} (plain : e.isProjection = false) (f : Fragment) : e.attach f = e.apply f := by
  cases e <;> first | rfl | cases plain

theorem andThen_plain (left : Expr) {right : Expr} (plain : right.isProjection = false) :
    (left.andThen right).isProjection = false := by
  cases left <;> first | exact plain | rfl

-- What a projection runs on each element once the pieces stand behind it.
def onEach : List Piece → Option Expr
  | [] => none
  | pieces => some (current.attachPieces pieces)

-- The three projections treat what follows alike: the first piece opens the part that
-- runs on each element, and every later one joins its end.
structure Projecting (frame : Option Expr → Expr) : Prop where
  opens : ∀ f, (frame none).attach f = frame (some (current.attach f))
  joins : ∀ rest f, (frame (some rest)).attach f = frame (some (rest.attach f))

theorem projecting_array (left : Expr) : Projecting (.projectArray left) :=
  ⟨fun _ => rfl,fun _ _ => rfl⟩
theorem projecting_object (left : Expr) : Projecting (.projectObject left) :=
  ⟨fun _ => rfl,fun _ _ => rfl⟩
theorem projecting_filter (left condition : Expr) : Projecting (.filter left condition) :=
  ⟨fun _ => rfl,fun _ _ => rfl⟩

theorem Projecting.attachPieces_some (frame : Projecting make) (rest : Expr) (pieces : List Piece) :
    (make (some rest)).attachPieces pieces = make (some (rest.attachPieces pieces)) := by
  induction pieces generalizing rest with
  | nil => rfl
  | cons p pieces ih => rw [attachPieces_cons,frame.joins,ih,attachPieces_cons]

theorem Projecting.attachPieces_none (frame : Projecting make) (pieces : List Piece) :
    (make none).attachPieces pieces = make (onEach pieces) := by
  cases pieces with
  | nil => rfl
  | cons p rest => rw [attachPieces_cons,frame.opens,frame.attachPieces_some,onEach,attachPieces_cons]; simp

section
variable {setting : Setting} {scope : Scope Json}

theorem eval_andThen (left right : Expr) (v : Json) :
    (left.andThen right).eval setting v scope =
      left.eval setting v scope >>= fun base => right.eval setting base scope := by
  unfold andThen
  split
  · simp only [eval,bind,Except.bind]
  · simp only [eval]

theorem eval_projectArray (left : Expr) (rest : Option Expr) (v : Json) :
    (projectArray left rest).eval setting v scope =
      left.eval setting v scope >>= onArray (gather fun element => evalRest setting rest element scope) := by
  rw [eval]
  congr 1
  funext base
  cases base <;> first | rfl | exact project_gather _ _

theorem eval_projectObject (left : Expr) (rest : Option Expr) (v : Json) :
    (projectObject left rest).eval setting v scope =
      left.eval setting v scope >>= onObject (gather fun element => evalRest setting rest element scope) := by
  rw [eval]
  congr 1
  funext base
  cases base <;> first | rfl | exact project_gather _ _

theorem eval_filter (left condition : Expr) (rest : Option Expr) (v : Json) :
    (filter left condition rest).eval setting v scope =
      left.eval setting v scope >>= onArray fun elements =>
        passing (fun element => condition.eval setting element scope) elements >>=
          gather fun element => evalRest setting rest element scope := by
  rw [eval]
  congr 1
  funext base
  cases base with
  | array elements => simp only [keepWhere_passing,project_gather,onArray,bind_assoc]
  | _ => rfl

theorem eval_slice_array (s : Slice) (act : List Json → Except EvalError (List Json)) (v : Json) :
    ((slice s).eval setting v scope >>= onArray act) =
      if s.step = some 0 then .error (.value .zeroStep)
      else onArray (fun elements => act (Json.sliceElements elements s (s.step.getD 1))) v := by
  have zero : s.step.getD 1 = 0 ↔ s.step = some 0 := by cases s.step <;> simp
  simp only [eval,sliceValue,zero]
  split
  · rfl
  · cases v <;> rfl

-- From the tree for the elements to the pieces that act on them.
theorem evalRest_onEach (pieces : List Piece)
    (acts : ∀ v, (current.attachPieces pieces).eval setting v scope = piecewise setting scope pieces v) :
    (fun element => evalRest setting (onEach pieces) element scope) = piecewise setting scope pieces := by
  funext element
  cases pieces with
  | nil => rfl
  | cons p rest => exact acts element

theorem eval_attachPieces (e : Expr) (plain : e.isProjection = false) (pieces : List Piece) (v : Json) :
    (e.attachPieces pieces).eval setting v scope =
      e.eval setting v scope >>= piecewise setting scope pieces := by
  induction pieces generalizing e v with
  | nil => cases value : e.eval setting v scope <;> simp [value,piecewise,bind,Except.bind]
  | cons p rest ih =>
      have each := evalRest_onEach rest fun element => by
        rw [ih current rfl element]; simp only [eval,bind,Except.bind]
      rw [attachPieces_cons,attach_plain plain]
      cases p with
      | select s =>
          rw [Piece.fragment,apply,ih _ (andThen_plain e s.expr_plain),eval_andThen,bind_assoc]
          rfl
      | index i =>
          rw [Piece.fragment,apply,ih _ (andThen_plain e rfl),eval_andThen,bind_assoc]
          simp only [eval,piecewise,bind,Except.bind]
      | wildcard =>
          rw [Piece.fragment,apply,(projecting_array e).attachPieces_none,eval_projectArray,each]
          rfl
      | values =>
          rw [Piece.fragment,apply,(projecting_object e).attachPieces_none,eval_projectObject,each]
          rfl
      | filter condition =>
          rw [Piece.fragment,apply,(projecting_filter e condition).attachPieces_none,eval_filter,each]
          rfl
      | slice s =>
          rw [Piece.fragment,apply,(projecting_array _).attachPieces_none,eval_projectArray,each,
            eval_andThen,bind_assoc]
          simp only [eval_slice_array,piecewise]

theorem eval_flattened (e : Expr) (pieces : List Piece) (v : Json) :
    (e.flattened.attachPieces pieces).eval setting v scope =
      e.eval setting v scope >>= onArray fun elements =>
        gather (piecewise setting scope pieces) (unnested elements) := by
  have each := @evalRest_onEach setting scope pieces fun element => by
    rw [eval_attachPieces current rfl]; simp only [eval,bind,Except.bind]
  rw [flattened,(projecting_array _).attachPieces_none,eval_projectArray,each,eval,bind_assoc]
  congr 1
  funext whole
  cases whole with
  | array elements => rw [flatten_unnested]; rfl
  | _ => rfl

-- A tree built piece by piece from the left means what the list says. The induction is
-- on the length: what stands before the last flattening is any shorter list.
theorem eval_attachAll (setting : Setting) (scope : Scope Json) (e : Expr)
    (plain : e.isProjection = false) (all : List Postfix) (v : Json) :
    (e.attachAll all).eval setting v scope =
      e.eval setting v scope >>= meaning setting scope all := by
  induction count : all.length using Nat.strongRecOn generalizing all with
  | ind n shorter =>
      have whole := Postfix.splitLast_joined all
      rcases divided : Postfix.splitLast all with ⟨_ | before,after⟩
      · have acts : meaning setting scope all = piecewise setting scope after := by
          funext value; rw [meaning]; split <;> simp_all
        rw [divided] at whole
        subst whole
        rw [acts]
        exact eval_attachPieces e plain after v
      · have acts : meaning setting scope all = fun value => meaning setting scope before value >>=
            onArray fun elements => gather (piecewise setting scope after) (unnested elements) := by
          funext value; rw [meaning]; split <;> simp_all
        have earlier := shorter before.length (count ▸ Postfix.splitLast_shorter divided) before rfl
        rw [divided] at whole
        rw [acts,← whole,Postfix.joined,attachAll_append,attachAll_cons]
        calc (((e.attachAll before).flattened).attachPieces after).eval setting v scope
            = (e.attachAll before).eval setting v scope >>= onArray fun elements =>
                gather (piecewise setting scope after) (unnested elements) := eval_flattened _ _ _
          _ = _ := by rw [earlier,bind_assoc]

-- `foo[*].bar[]`, where one element has no field and one array holds a null.
theorem eval_attachAll_wildcard :
    let pieces : List Postfix := [.piece .wildcard,.piece (.select (.field "bar")),.flatten]
    let v : Json := .object [("foo",.array [.object [("bar",.array [.string "a"])],.object [],
      .object [("bar",.array [.null,.string "b"])]])]
    (field "foo").isProjection = false ∧
      ((field "foo").attachAll pieces).eval ⟨.builtins,false,v⟩ v .empty =
        (field "foo").eval ⟨.builtins,false,v⟩ v .empty >>= meaning ⟨.builtins,false,v⟩ .empty pieces ∧
      ((field "foo").attachAll pieces).eval ⟨.builtins,false,v⟩ v .empty =
        .ok (.array [.string "a",.string "b"]) :=
  ⟨rfl,eval_attachAll _ _ _ rfl _ _,rfl⟩

-- `@[::0]` on a value that is no array is refused, where every other slice is null.
theorem zeroStep_scalar : (∀ elements, Json.string "a" ≠ .array elements) ∧
    current.isProjection = false ∧
    (current.attachAll [.piece (.slice ⟨none,none,some 0⟩)]).eval
      ⟨.builtins,false,.string "a"⟩ (.string "a") .empty = .error (.value .zeroStep) :=
  ⟨nofun,rfl,by simp [attachAll,Postfix.attachedTo,Piece.fragment,attach,apply,andThen,eval,sliceValue,
    bind,Except.bind]⟩

end
end Expr
end JsonQuery
