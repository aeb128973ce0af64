import JsonQuery.Proofs.Acceptance
import JsonQuery.Proofs.Expr.Built
import JsonQuery.Proofs.Expr.Postfix
import JsonQuery.Proofs.Expr.Tree

namespace JsonQuery
namespace Expr

-- Where a tree hangs in the one above it, as far as it matters for what may hang there:
-- on the left of an array projection, on the right of `within`, or elsewhere.
inductive Place where
  | array | selected | elsewhere

-- The children with their places.
def parts : Expr → List (Place × Expr)
  | .within left right => [(.elsewhere,left),(.selected,right)]
  | .projectArray left rest => (.array,left) :: rest.toList.map (.elsewhere,·)
  | e => e.children.map (.elsewhere,·)

theorem parts_children (e : Expr) : e.parts.map (·.2) = e.children := by
  cases e <;> simp [parts,children,Function.comp_def]

-- A node of a tree and where it hangs.
inductive Node (tree : Expr) : Place → Expr → Prop where
  | whole : Node tree .elsewhere tree
  | part (above : Node tree place e) (present : (below,child) ∈ e.parts) : Node tree below child

theorem Occurs.extend {tree e child : Expr} (occurs : Occurs e tree) (present : child ∈ e.children) :
    Occurs child tree := by
  induction occurs with
  | here => exact .deeper present .here
  | deeper first _ ih => exact .deeper first ih

-- No node is missed, and nothing else is taken for one.
theorem occurs_node {tree inner : Expr} : Occurs inner tree ↔ ∃ place, Node tree place inner := by
  constructor
  · intro occurs
    have below : ∀ {top place}, Node top place tree → ∃ place, Node top place inner := by
      induction occurs with
      | here => exact fun node => ⟨_,node⟩
      | deeper present _ ih =>
          intro top place node
          rw [← parts_children] at present
          obtain ⟨⟨below,child⟩,member,rfl⟩ := List.mem_map.mp present
          exact ih (.part node member)
    exact below .whole
  · intro found
    obtain ⟨place,node⟩ := found
    induction node with
    | whole => exact .here
    | part _ present ih => exact ih.extend (parts_children _ ▸ List.mem_map_of_mem present)

-- What may stand on the right of `within`.
def isStep : Expr → Bool
  | .index _ | .slice _ => true
  | e => e.isSelectable

def rightSide? : Expr → Option Expr
  | .within _ right | .pipe _ right | .or _ right | .and _ right | .compare _ _ right => some right
  | .projectArray _ rest | .projectObject _ rest | .filter _ _ rest => rest
  | _ => none

-- Reached from a tree by right sides alone.
inductive Inwards (inner : Expr) : Expr → Prop where
  | here : Inwards inner inner
  | right (side : rightSide? e = some right) (inwards : Inwards inner right) : Inwards inner e

def isFlattening : Expr → Bool
  | .projectArray (.flatten _) _ => true
  | _ => false

-- What may run on each element of a projection. A flattening would take the projection too.
structure Follows (e : Expr) : Prop where
  moves : e ≠ .current
  grouped : ∀ inner, Inwards inner e → inner.isFlattening = false

-- What a node has to be for the place where it hangs.
def Shaped (place : Place) : Expr → Prop
  | .slice _ => place = .array ∨ place = .selected
  | .flatten _ => place = .array
  | .within left right => left ≠ .current ∧ left.isProjection = false ∧ right.isStep = true ∧
      ∀ s, right = .slice s → place = .array
  | .projectArray left rest | .projectObject left rest | .filter left _ rest =>
      left.isProjection = false ∧ ∀ e ∈ rest, e.Follows
  | .list elements => elements ≠ []
  | .hash entries => entries ≠ []
  | .letIn bindings _ => bindings ≠ []
  | _ => True

-- Every node is shaped for its place.
inductive Regular : Place → Expr → Prop where
  | intro (here : e.Shaped place) (lower : ∀ below child, (below,child) ∈ e.parts → Regular below child) :
      Regular place e

section
variable {place below : Place} {e child left right : Expr} {rest : Option Expr}

theorem Regular.shaped (regular : e.Regular place) : e.Shaped place := by
  cases regular with
  | intro here _ => exact here

theorem Regular.part (regular : e.Regular place) (present : (below,child) ∈ e.parts) : child.Regular below := by
  cases regular with
  | intro _ lower => exact lower _ _ present

theorem Regular.node {tree : Expr} (regular : tree.Regular .elsewhere) (node : Node tree place e) :
    e.Regular place := by
  induction node with
  | whole => exact regular
  | part _ present ih => exact ih.part present

-- What may hang elsewhere may hang anywhere.
theorem Regular.moved (regular : e.Regular .elsewhere) : e.Regular place := by
  refine .intro ?_ fun below child present => regular.part present
  have shaped := regular.shaped
  cases e with
  | slice s => exact shaped.elim nofun nofun
  | flatten inner => cases shaped
  | within left right =>
      obtain ⟨moves,single,step,cut⟩ := shaped
      exact ⟨moves,single,step,fun s same => nomatch cut s same⟩
  | _ => exact shaped

theorem Regular.leaf (shaped : e.Shaped place) (bare : e.parts = []) : e.Regular place :=
  .intro shaped fun _ _ present => by simp [bare] at present

-- Nothing is asked of the places of its children.
theorem Regular.plain (shaped : e.Shaped place) (plain : e.parts = e.children.map (.elsewhere,·))
    (lower : ∀ child ∈ e.children, child.Regular .elsewhere) : e.Regular place := by
  refine .intro shaped fun below child present => ?_
  rw [plain] at present
  obtain ⟨_,member,same⟩ := List.mem_map.mp present
  cases same
  exact lower _ member

theorem Regular.within (before : left.Regular .elsewhere) (moves : left ≠ .current)
    (single : left.isProjection = false) (after : right.Regular .selected) (step : right.isStep = true)
    (cut : ∀ s, right = .slice s → place = .array) : (Expr.within left right).Regular place := by
  refine .intro ⟨moves,single,step,cut⟩ fun below child present => ?_
  simp only [parts,List.mem_cons,Prod.mk.injEq,List.not_mem_nil,or_false] at present
  rcases present with ⟨rfl,rfl⟩ | ⟨rfl,rfl⟩
  · exact before
  · exact after

theorem Regular.array (before : left.Regular .array) (single : left.isProjection = false)
    (after : ∀ e ∈ rest, e.Follows ∧ e.Regular .elsewhere) : (projectArray left rest).Regular place := by
  refine .intro ⟨single,fun e present => (after e present).1⟩ fun below child present => ?_
  rcases List.mem_cons.mp present with same | later
  · cases same
    exact before
  · obtain ⟨_,member,same⟩ := List.mem_map.mp later
    cases same
    exact (after _ (Option.mem_toList.mp member)).2

theorem Regular.object (before : left.Regular .elsewhere) (single : left.isProjection = false)
    (after : ∀ e ∈ rest, e.Follows ∧ e.Regular .elsewhere) : (projectObject left rest).Regular place := by
  refine .plain ⟨single,fun e present => (after e present).1⟩ rfl fun child present => ?_
  rcases List.mem_cons.mp present with rfl | later
  · exact before
  · exact (after child (Option.mem_toList.mp later)).2

theorem Regular.filtered (before : left.Regular .elsewhere) (single : left.isProjection = false)
    (test : condition.Regular .elsewhere) (after : ∀ e ∈ rest, e.Follows ∧ e.Regular .elsewhere) :
    (Expr.filter left condition rest).Regular place := by
  refine .plain ⟨single,fun e present => (after e present).1⟩ rfl fun child present => ?_
  rcases List.mem_cons.mp present with rfl | later
  · exact before
  · rcases List.mem_cons.mp later with rfl | last
    · exact test
    · exact (after child (Option.mem_toList.mp last)).2

theorem Follows.intro (moves : e ≠ .current) (grouped : e.isFlattening = false)
    (after : ∀ right, e.rightSide? = some right → right.Follows) : e.Follows := by
  refine ⟨moves,fun inner inwards => ?_⟩
  cases inwards with
  | here => exact grouped
  | right side inwards => exact (after _ side).grouped inner inwards

theorem Follows.step (step : e.isStep = true) : e.Follows := by
  cases e with
  | field _ | call _ _ | list _ | hash _ | index _ | slice _ => exact .intro nofun rfl nofun
  | _ => cases step

end
end Expr

def Fragment.Regular : Fragment → Prop
  | .select e => e.isSelectable = true ∧ e.Regular .elsewhere
  | .filter condition => condition.Regular .elsewhere
  | _ => True

namespace Expr
section
variable {place : Place} {e right : Expr} {f : Fragment}

theorem isStep_selectable (selectable : e.isSelectable = true) : e.isStep = true := by
  cases e <;> first | rfl | cases selectable

theorem Regular.andThen (regular : e.Regular .elsewhere) (single : e.isProjection = false)
    (step : right.isStep = true) (alone : right.Regular place) (behind : right.Regular .selected)
    (cut : ∀ s, right = .slice s → place = .array) : (e.andThen right).Regular place := by
  unfold Expr.andThen
  split
  · exact alone
  · rename_i moves
    exact regular.within moves single behind step cut

theorem Follows.andThen (step : right.isStep = true) : (e.andThen right).Follows := by
  unfold Expr.andThen
  split
  · exact .step step
  · exact .intro nofun rfl fun _ same => Option.some.inj same ▸ .step step

theorem Regular.apply (regular : e.Regular .elsewhere) (single : e.isProjection = false)
    (piece : f.Regular) : (e.apply f).Regular .elsewhere := by
  cases f with
  | select right =>
      obtain ⟨selectable,inner⟩ := piece
      refine regular.andThen single (isStep_selectable selectable) inner inner.moved ?_
      intro s same
      subst same
      cases selectable
  | index i => exact regular.andThen single rfl (.leaf trivial rfl) (.leaf trivial rfl) nofun
  | slice s =>
      have cut : (e.andThen (.slice s)).Regular .array :=
        regular.andThen single rfl (.leaf (.inl rfl) rfl) (.leaf (.inr rfl) rfl) fun _ _ => rfl
      exact .array cut (andThen_plain e rfl) nofun
  | wildcard => exact .array regular.moved single nofun
  | values => exact .object regular single nofun
  | filter condition => exact .filtered regular single piece nofun

-- A flattening is the only projection that no piece makes.
theorem Follows.apply (regular : e.Regular .elsewhere) (piece : f.Regular) : (e.apply f).Follows := by
  cases f with
  | select right => exact .andThen (isStep_selectable piece.1)
  | index i => exact .andThen rfl
  | slice s =>
      have grouped : (projectArray (e.andThen (.slice s)) none).isFlattening = false := by
        unfold Expr.andThen
        split <;> rfl
      exact .intro nofun grouped nofun
  | wildcard =>
      have grouped : (projectArray e none).isFlattening = false := by
        cases e with
        | flatten inner => cases regular.shaped
        | _ => rfl
      exact .intro nofun grouped nofun
  | values | filter condition => exact .intro nofun rfl nofun

theorem Regular.flattened (regular : e.Regular .elsewhere) : e.flattened.Regular place := by
  have taken : (flatten e).Regular .array := .plain rfl rfl (List.forall_mem_singleton.mpr regular)
  exact .array taken rfl nofun

-- The first piece behind a projection.
theorem opened_regular (piece : f.Regular) : (current.apply f).Follows ∧ (current.apply f).Regular .elsewhere := by
  have regular : current.Regular .elsewhere := .leaf trivial rfl
  exact ⟨.apply regular piece,regular.apply rfl piece⟩

theorem isFlattening_rest : (projectArray left rest).isFlattening = (projectArray left rest').isFlattening := by
  cases left <;> rfl

theorem Follows.resumed {e e' : Expr} (follows : e.Follows) (moves : e' ≠ .current)
    (same : e'.isFlattening = e.isFlattening) (side : e'.rightSide? = some next) (after : next.Follows) :
    e'.Follows := by
  refine .intro moves (same.trans (follows.grouped e .here)) fun right found => ?_
  cases found.symm.trans side
  exact after

-- The three projections keep their shape with another right side in the same way.
structure Resumes (make : Option Expr → Expr) : Prop extends Projecting make where
  below : ∀ e, (make (some e)).Regular .elsewhere → e.Follows ∧ e.Regular .elsewhere
  renewed : ∀ rest e, (make rest).Regular .elsewhere → e.Follows → e.Regular .elsewhere →
    (make (some e)).Regular .elsewhere
  onwards : ∀ rest e, (make rest).Follows → e.Follows → (make (some e)).Follows

theorem resumes_array (left : Expr) : Resumes (.projectArray left) where
  toProjecting := projecting_array left
  below _ regular := ⟨regular.shaped.2 _ rfl,regular.part (by simp [parts])⟩
  renewed _ _ regular follows after := .array (regular.part List.mem_cons_self) regular.shaped.1
    fun _ same => Option.some.inj same ▸ ⟨follows,after⟩
  onwards _ _ follows after := follows.resumed nofun isFlattening_rest rfl after

theorem resumes_object (left : Expr) : Resumes (.projectObject left) where
  toProjecting := projecting_object left
  below _ regular := ⟨regular.shaped.2 _ rfl,regular.part (by simp [parts,children])⟩
  renewed _ _ regular follows after := .object (regular.part List.mem_cons_self) regular.shaped.1
    fun _ same => Option.some.inj same ▸ ⟨follows,after⟩
  onwards _ _ follows after := follows.resumed nofun rfl rfl after

theorem resumes_filter (left condition : Expr) : Resumes (.filter left condition) where
  toProjecting := projecting_filter left condition
  below _ regular := ⟨regular.shaped.2 _ rfl,regular.part (by simp [parts,children])⟩
  renewed _ _ regular follows after := .filtered (regular.part List.mem_cons_self) regular.shaped.1
    (regular.part (List.mem_cons_of_mem _ List.mem_cons_self)) fun _ same => Option.some.inj same ▸ ⟨follows,after⟩
  onwards _ _ follows after := follows.resumed nofun rfl rfl after

-- A piece joins the tree, which keeps its shape, and what followed goes on following.
def Joins (f : Fragment) (e : Expr) : Prop := e.Regular .elsewhere →
  (e.attach f).Regular .elsewhere ∧ (e.Follows → (e.attach f).Follows)

theorem Resumes.joins_rest {make : Option Expr → Expr} {rest : Option Expr} (resumes : Resumes make)
    (piece : f.Regular) (each : ∀ e ∈ rest, Joins f e) : Joins f (make rest) := by
  intro regular
  cases rest with
  | none =>
      rw [resumes.opens,attach_plain rfl]
      obtain ⟨first,opened⟩ := opened_regular piece
      exact ⟨resumes.renewed _ _ regular first opened,fun follows => resumes.onwards _ _ follows first⟩
  | some rest =>
      rw [resumes.joins]
      obtain ⟨before,inner⟩ := resumes.below rest regular
      obtain ⟨later,keeps⟩ := each rest rfl inner
      exact ⟨resumes.renewed _ _ regular (keeps before) later,fun follows => resumes.onwards _ _ follows (keeps before)⟩

-- A piece goes down the right sides and joins the last of them.
theorem attach_joins (piece : f.Regular) (e : Expr) : Joins f e := by
  induction e with
  | projectArray left rest _ each => exact (resumes_array left).joins_rest piece each
  | projectObject left rest _ each => exact (resumes_object left).joins_rest piece each
  | filter left condition rest _ _ each => exact (resumes_filter left condition).joins_rest piece each
  | _ => exact fun regular => ⟨regular.apply rfl piece,fun _ => .apply regular piece⟩

end
end Expr

namespace Parser

open JsonQuery.Expr (children)

theorem regular_builds : Builds (fun _ => True) (·.Regular .elsewhere) (·.Regular) where
  current := .leaf trivial rfl
  root := .leaf trivial rfl
  «variable» _ := .leaf trivial rfl
  field _ := .leaf trivial rfl
  rawString _ := .leaf trivial rfl
  literal _ _ := .leaf trivial rfl
  not _ inner := .plain trivial rfl (by simpa [children] using inner)
  reference _ inner := .plain trivial rfl (by simpa [children] using inner)
  pipe _ _ before right := .plain trivial rfl (by simpa [children] using And.intro before right)
  or _ _ before right := .plain trivial rfl (by simpa [children] using And.intro before right)
  and _ _ before right := .plain trivial rfl (by simpa [children] using And.intro before right)
  compare _ _ _ before right := .plain trivial rfl (by simpa [children] using And.intro before right)
  list _ filled each := .plain filled rfl each
  hash _ filled each := .plain filled rfl (List.forall_mem_map.mpr each)
  call _ _ each := .plain trivial rfl each
  letIn _ _ filled values result :=
    .plain filled rfl (List.forall_mem_cons.mpr ⟨result,List.forall_mem_map.mpr values⟩)
  flattened _ before := before.flattened
  opened _ piece := (Expr.opened_regular piece).2
  attach e _ before piece := (Expr.attach_joins piece e before).1
  select _ selectable selected := ⟨selectable,selected⟩
  index _ := trivial
  slice _ := trivial
  wildcard := trivial
  values := trivial
  filter _ test := test

theorem Reads.regular (read : Reads power ks e rest) : e.Regular .elsewhere :=
  read.built regular_builds fun _ _ => trivial

end Parser

-- Every way in which the parser makes a tree keeps the shapes, so a compiled tree has them at
-- every node and in every place where the node hangs.
theorem Query.compile_shaped {source : String} {q : Query} (compiled : Query.compile source = .ok q) :
    ∀ inner, Expr.Occurs inner q.tree →
      (∃ place, q.tree.Node place inner) ∧ ∀ place, q.tree.Node place inner → inner.Shaped place := by
  obtain ⟨tree,parsed,made⟩ := Query.compile_ok.mp compiled
  obtain ⟨ending,_,reads⟩ := Expr.parse_reads.mp parsed
  subst made
  intro inner occurs
  exact ⟨Expr.occurs_node.mp occurs,fun place node => (reads.regular.node node).shaped⟩

-- A slice below a projection that a flattening has taken.
theorem Query.compile_shaped_slice :
    let cut : Expr := .within (.field "x") (.slice ⟨some 1,none,none⟩)
    let q : Query := ⟨"x[1:].y[]",.projectArray (.flatten (.projectArray cut (some (.field "y")))) none⟩
    Query.compile "x[1:].y[]" = .ok q ∧ Expr.Occurs cut q.tree ∧ q.tree.Node .array cut ∧ cut.Shaped .array := by
  intro cut q
  have compiled : Query.compile "x[1:].y[]" = .ok q := by rfl
  have inside : q.tree.Node .elsewhere (.projectArray cut (some (.field "y"))) :=
    .part (.part .whole List.mem_cons_self) List.mem_cons_self
  have node : q.tree.Node .array cut := .part inside List.mem_cons_self
  have occurs : Expr.Occurs cut q.tree := Expr.occurs_node.mpr ⟨.array,node⟩
  exact ⟨compiled,occurs,node,(Query.compile_shaped compiled cut occurs).2 .array node⟩

end JsonQuery
