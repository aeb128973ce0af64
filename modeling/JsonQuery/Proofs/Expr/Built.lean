import JsonQuery.Proofs.Expr.GrammarSound

namespace JsonQuery

-- What may be read behind a dot.
def Expr.isSelectable : Expr → Bool
  | .field _ | .call _ _ | .list _ | .hash _ => true
  | _ => false

namespace Parser

def LiteralTokens (P : String → Prop) (ks : List TokenKind) : Prop := ∀ text, .literal text ∈ ks → P text

section
variable {P : String → Prop}

theorem LiteralTokens.behind (given : LiteralTokens P (y ++ ks)) : LiteralTokens P ks :=
  fun text inside => given text (List.mem_append_right y inside)

theorem LiteralTokens.tail (given : LiteralTokens P (k :: ks)) : LiteralTokens P ks :=
  fun text inside => given text (List.mem_cons_of_mem k inside)

end

-- All the ways in which the parser makes a tree or a piece out of others, each with what
-- it knows of them.
structure Builds (P : String → Prop) (T : Expr → Prop) (F : Fragment → Prop) : Prop where
  current : T .current
  root : T .root
  «variable» : ∀ name, T (.variable name)
  field : ∀ name, T (.field name)
  rawString : ∀ s, T (.rawString s)
  literal : ∀ text, P text → T (.literal text)
  not : ∀ e, T e → T (.not e)
  reference : ∀ e, T e → T (.reference e)
  pipe : ∀ left right, T left → T right → T (.pipe left right)
  or : ∀ left right, T left → T right → T (.or left right)
  and : ∀ left right, T left → T right → T (.and left right)
  compare : ∀ op left right, T left → T right → T (.compare op left right)
  list : ∀ elements, elements ≠ [] → (∀ e ∈ elements, T e) → T (.list elements)
  hash : ∀ entries, entries ≠ [] → (∀ entry ∈ entries, T entry.2) → T (.hash entries)
  call : ∀ name arguments, (∀ e ∈ arguments, T e) → T (.call name arguments)
  letIn : ∀ bindings body, bindings ≠ [] → (∀ binding ∈ bindings, T binding.2) → T body →
    T (.letIn bindings body)
  flattened : ∀ e, T e → T e.flattened
  opened : ∀ f, F f → T (Expr.current.apply f)
  attach : ∀ e f, T e → F f → T (e.attach f)
  select : ∀ e, e.isSelectable = true → T e → F (.select e)
  index : ∀ i, F (.index i)
  slice : ∀ s, F (.slice s)
  wildcard : F .wildcard
  values : F .values
  filter : ∀ condition, T condition → F (.filter condition)

theorem ReadsItems.filled (read : ReadsItems closing ks es rest) : es ≠ [] := by
  cases read <;> exact List.cons_ne_nil _ _

theorem ReadsEntries.filled (read : ReadsEntries ks es rest) : es ≠ [] := by
  cases read <;> exact List.cons_ne_nil _ _

theorem ReadsBindings.filled (read : ReadsBindings ks bs rest) : bs ≠ [] := by
  cases read <;> exact List.cons_ne_nil _ _

section
variable {P : String → Prop} {T : Expr → Prop} {F : Fragment → Prop}

theorem ReadsBracket.built (builds : Builds P T F) (read : ReadsBracket ks f rest) : F f := by
  cases read with
  | index => exact builds.index _
  | slice | stepped => exact builds.slice _
  | wildcard => exact builds.wildcard

-- What holds of all that is built holds of all that is read. A literal is built only from
-- its token.
mutual
theorem Reads.built (builds : Builds P T F) : Reads power ks e rest → LiteralTokens P ks → T e
  | .expression first more,given => by
      have before := first.built builds given
      obtain ⟨y,rfl,_⟩ := first.derived
      exact more.built builds given.tail.behind before

theorem ReadsOperand.built (builds : Builds P T F) :
    ReadsOperand kind ks e rest → LiteralTokens P (kind :: ks) → T e
  | .field _ _,_ | .quoted _,_ => builds.field _
  | .rawString,_ => builds.rawString _
  | .variable,_ => builds.variable _
  | .current,_ => builds.current
  | .root,_ => builds.root
  | .literal,given => builds.literal _ (given _ List.mem_cons_self)
  | .call arguments,given => builds.call _ _ (arguments.built builds given.tail.tail)
  | .letIn names inner,given => by
      have values := names.built builds given.tail
      have filled := names.filled
      obtain ⟨v,rfl,_⟩ := names.derived
      exact builds.letIn _ _ filled values (inner.built builds given.tail.behind.tail)
  | .values,_ => builds.opened _ builds.values
  | .not inner,given => builds.not _ (inner.built builds given.tail)
  | .reference inner,given => builds.reference _ (inner.built builds given.tail)
  | .group inner,given => inner.built builds given.tail
  | .hash entries,given => builds.hash _ entries.filled (entries.built builds given.tail)
  | .list _ items,given => builds.list _ items.filled (items.built builds given.tail)
  | .bracket piece,_ => builds.opened _ (piece.built builds)
  | .flatten,_ => builds.flattened _ builds.current
  | .filter condition,given => builds.opened _ (builds.filter _ (condition.built builds given.tail))

theorem ReadsOperators.built (builds : Builds P T F) :
    ReadsOperators power left ks e rest → LiteralTokens P ks → T left → T e
  | .done _,_,before => before
  | .more _ _ first later,given,before => by
      have next := first.built builds given.tail before
      obtain ⟨y,rfl,_⟩ := first.derived
      exact later.built builds given.tail.behind next

theorem ReadsContinued.built (builds : Builds P T F) :
    ReadsContinued left op ks e rest → LiteralTokens P ks → T left → T e
  | .pipe right,given,before => builds.pipe _ _ before (right.built builds given)
  | .or right,given,before => builds.or _ _ before (right.built builds given)
  | .and right,given,before => builds.and _ _ before (right.built builds given)
  | .compare right,given,before => builds.compare _ _ _ before (right.built builds given)
  | .flatten,_,before => builds.flattened _ before
  | .bracket piece,_,before => builds.attach _ _ before (piece.built builds)
  | .filter condition,given,before => builds.attach _ _ before (builds.filter _ (condition.built builds given))
  | .dot selected,given,before => builds.attach _ _ before (selected.built builds given)

theorem ReadsSelected.built (builds : Builds P T F) : ReadsSelected ks f rest → LiteralTokens P ks → F f
  | .field _,_ | .quoted _,_ => builds.select _ rfl (builds.field _)
  | .call arguments,given => builds.select _ rfl (builds.call _ _ (arguments.built builds given.tail.tail))
  | .values,_ => builds.values
  | .list items,given => builds.select _ rfl (builds.list _ items.filled (items.built builds given.tail))
  | .hash entries,given => builds.select _ rfl (builds.hash _ entries.filled (entries.built builds given.tail))

theorem ReadsArguments.built (builds : Builds P T F) :
    ReadsArguments ks es rest → LiteralTokens P ks → ∀ e ∈ es, T e
  | .none,_ => nofun
  | .some _ items,given => items.built builds given

theorem ReadsItems.built (builds : Builds P T F) :
    ReadsItems closing ks es rest → LiteralTokens P ks → ∀ e ∈ es, T e
  | .last item,given => List.forall_mem_singleton.mpr (item.built builds given)
  | .more item later,given => by
      have first := item.built builds given
      obtain ⟨y,rfl,_⟩ := item.derived
      exact List.forall_mem_cons.mpr ⟨first,later.built builds given.behind.tail⟩

theorem ReadsEntries.built (builds : Builds P T F) :
    ReadsEntries ks es rest → LiteralTokens P ks → ∀ entry ∈ es, T entry.2
  | .last _ value,given => List.forall_mem_singleton.mpr (value.built builds given.tail.tail)
  | .more _ value later,given => by
      have first := value.built builds given.tail.tail
      obtain ⟨y,rfl,_⟩ := value.derived
      exact List.forall_mem_cons.mpr ⟨first,later.built builds given.tail.tail.behind.tail⟩

theorem ReadsBindings.built (builds : Builds P T F) :
    ReadsBindings ks bs rest → LiteralTokens P ks → ∀ binding ∈ bs, T binding.2
  | .last value _,given => List.forall_mem_singleton.mpr (value.built builds given.tail.tail)
  | .more value later,given => by
      have first := value.built builds given.tail.tail
      obtain ⟨y,rfl,_⟩ := value.derived
      exact List.forall_mem_cons.mpr ⟨first,later.built builds given.tail.tail.behind.tail⟩
end

end
end Parser
end JsonQuery
