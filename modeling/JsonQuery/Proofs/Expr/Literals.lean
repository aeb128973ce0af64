import JsonQuery.Proofs.Expr.Built
import JsonQuery.Proofs.Expr.Tree

namespace JsonQuery
namespace Expr

def Literals (P : String → Prop) (e : Expr) : Prop :=
  e.Everywhere fun inner => ∀ text, inner = .literal text → P text

section
variable {P : String → Prop}

theorem Literals.node {e : Expr} (plain : ∀ text, e ≠ .literal text)
    (lower : ∀ child ∈ e.children, child.Literals P) : e.Literals P :=
  .intro (fun text same => absurd same (plain text)) lower

theorem Literals.leaf {e : Expr} (plain : ∀ text, e ≠ .literal text) (bare : e.children = []) :
    e.Literals P :=
  .node plain (by simp [bare])

end
end Expr

def Fragment.Literals (P : String → Prop) : Fragment → Prop
  | .select e => e.Literals P
  | .filter condition => condition.Literals P
  | _ => True

namespace Expr
section
variable {P : String → Prop}

theorem Literals.within {left right : Expr} (first : left.Literals P) (second : right.Literals P) :
    (Expr.within left right).Literals P :=
  .node nofun (by simp [children,first,second])

theorem Literals.spine {e : Expr} {before : List Expr} {rest : Option Expr}
    (plain : ∀ text, e ≠ .literal text) (shape : e.children = before ++ rest.toList)
    (first : ∀ x ∈ before, x.Literals P) (second : ∀ x ∈ rest, x.Literals P) : e.Literals P := by
  refine .node plain fun child present => ?_
  rw [shape] at present
  rcases List.mem_append.mp present with earlier | later
  · exact first child earlier
  · exact second child (Option.mem_toList.mp later)

theorem Literals.array {left : Expr} {rest : Option Expr} (first : left.Literals P)
    (second : ∀ e ∈ rest, e.Literals P) : (projectArray left rest).Literals P :=
  @spine _ _ [left] rest nofun rfl (by simpa using first) second

theorem Literals.object {left : Expr} {rest : Option Expr} (first : left.Literals P)
    (second : ∀ e ∈ rest, e.Literals P) : (projectObject left rest).Literals P :=
  @spine _ _ [left] rest nofun rfl (by simpa using first) second

theorem Literals.filtered {left condition : Expr} {rest : Option Expr} (first : left.Literals P)
    (test : condition.Literals P) (second : ∀ e ∈ rest, e.Literals P) :
    (Expr.filter left condition rest).Literals P :=
  @spine _ _ [left,condition] rest nofun rfl (by simp [first,test]) second

theorem Literals.andThen {left right : Expr} (first : left.Literals P) (second : right.Literals P) :
    (left.andThen right).Literals P := by
  unfold Expr.andThen
  split
  · exact second
  · exact first.within second

theorem Literals.flattened {e : Expr} (literals : e.Literals P) : e.flattened.Literals P :=
  .array (.node nofun (by simp [children,literals])) nofun

theorem Literals.apply {e : Expr} (literals : e.Literals P) (piece : f.Literals P) :
    (e.apply f).Literals P := by
  cases f with
  | select right => exact literals.andThen piece
  | index i => exact literals.andThen (.leaf nofun rfl)
  | slice s => exact .array (literals.andThen (.leaf nofun rfl)) nofun
  | wildcard => exact .array literals nofun
  | values => exact .object literals nofun
  | filter condition => exact .filtered literals piece nofun

theorem Literals.opened (piece : f.Literals P) : (current.apply f).Literals P :=
  .apply (.leaf nofun rfl) piece

-- Along the spine of projections that the piece goes down.
theorem Literals.attach {e : Expr} (literals : e.Literals P) (piece : f.Literals P) :
    (e.attach f).Literals P := by
  fun_induction Expr.attach e f with
  | case1 left f =>
      exact .array (literals.child (by simp [children])) fun _ same => Option.some.inj same ▸ Literals.opened piece
  | case2 left rest f ih =>
      have later := ih (literals.child (by simp [children])) piece
      exact .array (literals.child (by simp [children])) fun _ same => Option.some.inj same ▸ later
  | case3 left f =>
      exact .object (literals.child (by simp [children])) fun _ same => Option.some.inj same ▸ Literals.opened piece
  | case4 left rest f ih =>
      have later := ih (literals.child (by simp [children])) piece
      exact .object (literals.child (by simp [children])) fun _ same => Option.some.inj same ▸ later
  | case5 left condition f =>
      exact .filtered (literals.child (by simp [children])) (literals.child (by simp [children]))
        fun _ same => Option.some.inj same ▸ Literals.opened piece
  | case6 left condition rest f ih =>
      have later := ih (literals.child (by simp [children])) piece
      exact .filtered (literals.child (by simp [children])) (literals.child (by simp [children]))
        fun _ same => Option.some.inj same ▸ later
  | case7 => exact literals.apply piece

end
end Expr

namespace Parser

open JsonQuery.Expr (children)

section
variable {P : String → Prop}

theorem literals_builds : Builds P (·.Literals P) (·.Literals P) where
  current := .leaf nofun rfl
  root := .leaf nofun rfl
  «variable» _ := .leaf nofun rfl
  field _ := .leaf nofun rfl
  rawString _ := .leaf nofun rfl
  literal _ told := .intro (fun _ same => Expr.literal.inj same ▸ told) nofun
  not _ inner := .node nofun (by simpa [children] using inner)
  reference _ inner := .node nofun (by simpa [children] using inner)
  pipe _ _ before right := .node nofun (by simpa [children] using And.intro before right)
  or _ _ before right := .node nofun (by simpa [children] using And.intro before right)
  and _ _ before right := .node nofun (by simpa [children] using And.intro before right)
  compare _ _ _ before right := .node nofun (by simpa [children] using And.intro before right)
  list _ _ each := .node nofun each
  hash _ _ each := .node nofun (List.forall_mem_map.mpr each)
  call _ _ each := .node nofun each
  letIn _ _ _ values result := .node nofun (List.forall_mem_cons.mpr ⟨result,List.forall_mem_map.mpr values⟩)
  flattened _ before := before.flattened
  opened _ piece := .opened piece
  attach _ _ before piece := before.attach piece
  select _ _ selected := selected
  index _ := trivial
  slice _ := trivial
  wildcard := trivial
  values := trivial
  filter _ test := test

-- Every literal of a tree is written in its text: no step of the parser makes one up.
theorem Reads.literals (read : Reads power ks e rest) (given : LiteralTokens P ks) : e.Literals P :=
  read.built literals_builds given

end
end Parser
end JsonQuery
