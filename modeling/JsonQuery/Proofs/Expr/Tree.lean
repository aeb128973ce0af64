import JsonQuery.Expr.Basic

namespace JsonQuery.Expr

-- The trees directly below, wherever they hang: in an option, a list or a pair.
def children : Expr → List Expr
  | .within left right => [left,right]
  | .flatten e => [e]
  | .projectArray left rest => left :: rest.toList
  | .projectObject left rest => left :: rest.toList
  | .filter left condition rest => left :: condition :: rest.toList
  | .pipe left right => [left,right]
  | .or left right => [left,right]
  | .and left right => [left,right]
  | .not e => [e]
  | .compare _ left right => [left,right]
  | .list elements => elements
  | .hash entries => entries.map (·.2)
  | .call _ arguments => arguments
  | .reference e => [e]
  | .letIn bindings body => body :: bindings.map (·.2)
  | _ => []

theorem sizeOf_member_pairs {pairs : List (String × Expr)} (present : e ∈ pairs.map (·.2)) :
    sizeOf e < sizeOf pairs := by
  obtain ⟨⟨name,value⟩,member,rfl⟩ := List.mem_map.mp present
  have whole := List.sizeOf_lt_of_mem member
  simp only [Prod.mk.sizeOf_spec] at whole
  change sizeOf value < _
  omega

theorem sizeOf_member_rest {rest : Option Expr} (present : e ∈ rest.toList) :
    sizeOf e < sizeOf rest := by
  cases rest with
  | none => cases present
  | some inner => simp only [Option.toList,List.mem_singleton] at present; subst present; simp

theorem sizeOf_children {e child : Expr} (present : child ∈ e.children) : sizeOf child < sizeOf e := by
  cases e with
  | list elements =>
      have : sizeOf child < sizeOf elements := List.sizeOf_lt_of_mem present
      rw [list.sizeOf_spec]; omega
  | call name arguments =>
      have : sizeOf child < sizeOf arguments := List.sizeOf_lt_of_mem present
      rw [call.sizeOf_spec]; omega
  | hash entries =>
      have := sizeOf_member_pairs present
      rw [hash.sizeOf_spec]; omega
  | letIn bindings body =>
      rw [letIn.sizeOf_spec]
      rcases List.mem_cons.mp present with rfl | bound
      · omega
      · have := sizeOf_member_pairs bound
        omega
  | projectArray left rest =>
      rw [projectArray.sizeOf_spec]
      rcases List.mem_cons.mp present with rfl | later
      · omega
      · have := sizeOf_member_rest later
        omega
  | projectObject left rest =>
      rw [projectObject.sizeOf_spec]
      rcases List.mem_cons.mp present with rfl | later
      · omega
      · have := sizeOf_member_rest later
        omega
  | filter left condition rest =>
      rw [filter.sizeOf_spec]
      rcases List.mem_cons.mp present with rfl | later
      · omega
      · rcases List.mem_cons.mp later with rfl | last
        · omega
        · have := sizeOf_member_rest last
          omega
  | _ => simp [children] at present <;> rcases present with rfl | rfl <;> simp <;> omega

-- One case for each form, with the hypothesis for whatever it is made of. A call has it
-- also for what its references defer.
@[elab_as_elim,induction_eliminator]
theorem induct {motive : Expr → Prop}
    (current : motive .current) (root : motive .root)
    («variable» : ∀ name, motive (.variable name)) (field : ∀ name, motive (.field name))
    (index : ∀ i, motive (.index i)) (slice : ∀ s, motive (.slice s))
    (within : ∀ left right, motive left → motive right → motive (.within left right))
    (flatten : ∀ e, motive e → motive (.flatten e))
    (projectArray : ∀ left rest, motive left → (∀ e ∈ rest, motive e) → motive (.projectArray left rest))
    (projectObject : ∀ left rest, motive left → (∀ e ∈ rest, motive e) → motive (.projectObject left rest))
    (filter : ∀ left condition rest, motive left → motive condition → (∀ e ∈ rest, motive e) →
      motive (.filter left condition rest))
    (pipe : ∀ left right, motive left → motive right → motive (.pipe left right))
    (or : ∀ left right, motive left → motive right → motive (.or left right))
    (and : ∀ left right, motive left → motive right → motive (.and left right))
    (not : ∀ e, motive e → motive (.not e))
    (compare : ∀ op left right, motive left → motive right → motive (.compare op left right))
    (list : ∀ elements, (∀ e ∈ elements, motive e) → motive (.list elements))
    (hash : ∀ entries, (∀ entry ∈ entries, motive entry.2) → motive (.hash entries))
    (call : ∀ name arguments, (∀ e ∈ arguments, motive e) → (∀ e, .reference e ∈ arguments → motive e) →
      motive (.call name arguments))
    (reference : ∀ e, motive e → motive (.reference e))
    (literal : ∀ text, motive (.literal text)) (rawString : ∀ s, motive (.rawString s))
    (letIn : ∀ bindings body, (∀ binding ∈ bindings, motive binding.2) → motive body →
      motive (.letIn bindings body))
    (e : Expr) : motive e := by
  induction size : sizeOf e using Nat.strongRecOn generalizing e with
  | ind n smaller =>
      have one : ∀ child ∈ e.children, motive child := fun child present =>
        smaller _ (size ▸ sizeOf_children present) child rfl
      cases e with
      | current => exact current
      | root => exact root
      | «variable» name => exact «variable» name
      | field name => exact field name
      | index i => exact index i
      | slice s => exact slice s
      | literal text => exact literal text
      | rawString s => exact rawString s
      | flatten e => exact flatten _ (one _ (by simp [children]))
      | not e => exact not _ (one _ (by simp [children]))
      | reference e => exact reference _ (one _ (by simp [children]))
      | within left right => exact within _ _ (one _ (by simp [children])) (one _ (by simp [children]))
      | pipe left right => exact pipe _ _ (one _ (by simp [children])) (one _ (by simp [children]))
      | or left right => exact or _ _ (one _ (by simp [children])) (one _ (by simp [children]))
      | and left right => exact and _ _ (one _ (by simp [children])) (one _ (by simp [children]))
      | compare op left right =>
          exact compare _ _ _ (one _ (by simp [children])) (one _ (by simp [children]))
      | projectArray left rest =>
          exact projectArray _ _ (one _ (by simp [children])) fun e present =>
            one e (by simp [children,Option.mem_toList.mpr present])
      | projectObject left rest =>
          exact projectObject _ _ (one _ (by simp [children])) fun e present =>
            one e (by simp [children,Option.mem_toList.mpr present])
      | filter left condition rest =>
          exact filter _ _ _ (one _ (by simp [children])) (one _ (by simp [children])) fun e present =>
            one e (by simp [children,Option.mem_toList.mpr present])
      | list elements => exact list _ one
      | hash entries => exact hash _ fun _ present => one _ (List.mem_map_of_mem present)
      | letIn bindings body =>
          exact letIn _ _
            (fun _ present => one _ (List.mem_cons_of_mem _ (List.mem_map_of_mem present)))
            (one _ (by simp [children]))
      | call name arguments =>
          refine call _ _ one fun e present => smaller _ ?_ e rfl
          have outer : sizeOf (Expr.reference e) < sizeOf (Expr.call name arguments) :=
            sizeOf_children present
          rw [Expr.reference.sizeOf_spec] at outer
          omega

-- A tree occurs in itself and in whatever it hangs below.
inductive Occurs (inner : Expr) : Expr → Prop where
  | here : Occurs inner inner
  | deeper : child ∈ children e → Occurs inner child → Occurs inner e

-- Of every node of a tree.
def Everywhere (P : Expr → Prop) (e : Expr) : Prop := ∀ inner, Occurs inner e → P inner

theorem Everywhere.node {P : Expr → Prop} {e : Expr} (all : Everywhere P e) : P e := all e .here

theorem Everywhere.child {P : Expr → Prop} {e child : Expr} (all : Everywhere P e)
    (present : child ∈ e.children) : Everywhere P child :=
  fun inner occurs => all inner (.deeper present occurs)

theorem Everywhere.intro {P : Expr → Prop} {e : Expr} (here : P e)
    (lower : ∀ child ∈ e.children, Everywhere P child) : Everywhere P e := by
  intro inner occurs
  cases occurs with
  | here => exact here
  | deeper present occurs => exact lower _ present inner occurs

end JsonQuery.Expr
