import JsonQuery.Proofs.Expr.GrammarComplete
import JsonQuery.Proofs.Expr.GrammarSound
import JsonQuery.Proofs.Expr.Phrase

namespace JsonQuery

open Grammar JsonQuery.Parser

def Writes (ks : List TokenKind) : Prop := ∀ k ∈ ks, k.Writable

theorem Writes.nil : Writes [] := fun _ inside => absurd inside List.not_mem_nil

theorem Writes.cons (first : k.Writable) (others : Writes ks) : Writes (k :: ks) :=
  List.forall_mem_cons.mpr ⟨first,others⟩

theorem Writes.symbol (others : Writes ks) : Writes (.symbol s :: ks) := .cons trivial others

theorem Writes.append (first : Writes ks) (second : Writes ks') : Writes (ks ++ ks') :=
  fun k inside => (List.mem_append.mp inside).elim (first k) (second k)

theorem Writes.grouped (inner : Writes ks) : Writes (grouped ks) := .symbol (inner.append (.symbol .nil))

theorem Writes.bracketed (inner : Writes ks) : Writes (bracketed ks) :=
  .symbol (inner.append (.symbol .nil))

theorem Writes.commas (each : ∀ ks ∈ all, Writes ks) : Writes (commas all) := by
  cases all with
  | nil => exact .nil
  | cons first others =>
      obtain ⟨first,later⟩ := List.forall_mem_cons.mp each
      refine first.append fun k inside => ?_
      obtain ⟨ks,member,found⟩ := List.mem_flatMap.mp inside
      exact (later ks member).symbol k found

namespace Expr

-- What a tree is printed as in front of a further piece.
def subject (e : Expr) : List TokenKind :=
  if e.isProjection then e.phrase false else grouped (e.phrase false)

-- What is printed is read as the tree again, on its own and where more is attached to it.
structure Printable (e : Expr) : Prop where
  writes : Writes (e.phrase false)
  spine : e.Spine
  whole : ∀ rest, Stops rest → Reads 0 (e.phrase false ++ rest) e rest
  base : ∀ rest e' rest', Follows rest → ReadsOperators 0 e rest e' rest' →
    Reads 0 (e.subject ++ rest) e' rest'

section
variable {e : Expr}

theorem reads_grouped {ks : List TokenKind}
    (inner : Reads 0 (ks ++ .symbol .rightParen :: rest) e (.symbol .rightParen :: rest))
    (more : ReadsOperators power e rest e' rest') : Reads power (grouped ks ++ rest) e' rest' := by
  have read := Reads.expression (.group inner) more
  simpa [grouped] using read

theorem Printable.closed (printable : e.Printable) (rest : List TokenKind) :
    Reads 0 (e.phrase false ++ .symbol .rightParen :: rest) e (.symbol .rightParen :: rest) :=
  printable.whole _ (closer_stops .rightParen (by decide) rest)

theorem Printable.grouped (printable : e.Printable) (power : Nat) (stops : Stops rest) :
    Reads power (grouped (e.phrase false) ++ rest) e rest :=
  reads_grouped (printable.closed rest) (.done (by simp [stops.operator]))

theorem Printable.chain (spine : e.Spine) (writes : Writes (e.phrase false))
    (chain : ∀ rest e' rest', Follows rest → ReadsOperators 0 e rest e' rest' →
      Reads 0 (e.phrase false ++ rest) e' rest') : e.Printable := by
  have whole : ∀ rest, Stops rest → Reads 0 (e.phrase false ++ rest) e rest := fun rest stops =>
    chain rest e rest stops.toFollows (.done (by simp [stops.operator]))
  refine ⟨writes,spine,whole,fun rest e' rest' follows more => ?_⟩
  unfold subject
  split
  · exact chain rest e' rest' follows more
  · exact reads_grouped (whole _ (closer_stops .rightParen (by decide) rest)) more

theorem Printable.operand (shape : e.phrase false = k :: ks) (spine : e.Spine) (writes : Writes (k :: ks))
    (read : ∀ rest, Follows rest → ReadsOperand k (ks ++ rest) e rest) : e.Printable :=
  .chain spine (shape ▸ writes) fun rest _ _ follows more =>
    shape ▸ .expression (read rest follows) more

-- What ends with an operand in parentheses takes nothing behind it.
theorem Printable.operation (plain : e.isProjection = false) (spine : e.Spine)
    (writes : Writes (e.phrase false))
    (whole : ∀ rest, Stops rest → Reads 0 (e.phrase false ++ rest) e rest) : e.Printable := by
  refine ⟨writes,spine,whole,fun rest e' rest' _ more => ?_⟩
  rw [subject,if_neg (by simp [plain])]
  exact reads_grouped (whole _ (closer_stops .rightParen (by decide) rest)) more

end
end Expr

theorem Slice.reads (s : Slice) : ∃ ks, s.phrase = .symbol .leftBracket :: ks ∧
    ∀ rest, ReadsBracket (ks ++ rest) (.slice s) rest := by
  obtain ⟨start,stop,step⟩ := s
  cases step with
  | none => exact ⟨_,rfl,fun rest => by simpa using ReadsBracket.slice⟩
  | some n => exact ⟨_,rfl,fun rest => by simpa [bound] using @ReadsBracket.stepped start stop (some n) rest⟩

structure Fragment.Printable (f : Fragment) : Prop where
  writes : Writes f.phrase
  reads : ∃ op ks, f.phrase = .symbol (Operator.symbol op) :: ks ∧ ∀ left rest, Follows rest →
    ReadsContinued left op (ks ++ rest) (left.attach f) rest
  selected : ∀ e, f = .select e → e.Printable

namespace Expr

theorem Printable.joined {e : Expr} (printable : e.Printable) (piece : f.Printable)
    (shape : (e.attach f).phrase false = e.subject ++ f.phrase) : (e.attach f).Printable := by
  have writes : Writes e.subject := by
    unfold subject
    split
    · exact printable.writes
    · exact printable.writes.grouped
  have spine : (e.attach f).Spine := printable.spine.attach fun right same => (piece.selected right same).spine
  refine .chain spine (shape ▸ writes.append piece.writes) fun rest e' rest' follows more => ?_
  obtain ⟨op,ks,start,continued⟩ := piece.reads
  rw [shape,start,List.append_assoc]
  have follows' : Follows (.symbol op.symbol :: ks ++ rest) := Continues.follows (.inr ⟨op,ks,rfl⟩) follows
  exact printable.base _ e' rest' follows'
    (.more (Operator.ofKind?_some.mpr rfl) (power_positive op) (continued e rest follows) more)

theorem Printable.current : current.Printable :=
  .operand rfl rfl (.symbol .nil) fun _ _ => .current

theorem Printable.opened {f : Fragment} (piece : f.Printable) : (Expr.current.apply f).Printable := by
  cases f with
  | select right => exact piece.selected right rfl
  | index i => exact .operand rfl rfl piece.writes fun _ _ => .bracket .index
  | slice s =>
      obtain ⟨ks,shape,read⟩ := s.reads
      have writes := piece.writes
      rw [Fragment.phrase,shape] at writes
      have same : (projectArray (.slice s) none).phrase false = .symbol .leftBracket :: ks := by
        simp [phrase,selects,restPhrase,shape]
      exact .operand same rfl writes fun rest _ => .bracket (read rest)
  | wildcard | values => exact Printable.current.joined piece rfl
  | filter condition => exact Printable.current.joined piece (List.append_nil _)

theorem Printable.attach {e : Expr} (printable : e.Printable) (piece : f.Printable) :
    (e.attach f).Printable := by
  by_cases projection : e.isProjection = true
  · refine printable.joined piece ?_
    rw [attach_phrase printable.spine (.inl projection),subject,if_pos projection]
  have plain := Bool.eq_false_iff.mpr projection
  by_cases here : e = .current
  · subst here
    exact .opened piece
  · refine printable.joined piece ?_
    rw [attach_plain plain,apply_phrase printable.spine.signed (.inr here),subject,if_neg projection]
    rfl

theorem Printable.flattened {e : Expr} (printable : e.Printable) : e.flattened.Printable := by
  have shape : e.flattened.phrase false = JsonQuery.grouped (e.phrase false) ++ [.symbol .flatten] := by
    simp [Expr.flattened,phrase,selects,restPhrase,based]
  refine .chain rfl ?_ fun rest e' rest' _ more => ?_
  · rw [shape]
    exact printable.writes.grouped.append (.symbol .nil)
  · rw [shape,List.append_assoc]
    exact reads_grouped (printable.closed _)
      (.more rfl (power_positive .flatten) .flatten more)

theorem Printable.joins {left right : Expr} (op : Operator) {e : Expr} (first : left.Printable)
    (second : right.Printable) (shape : e.phrase false = JsonQuery.joined op (left.phrase false) (right.phrase false))
    (plain : e.isProjection = false) (spine : e.Spine)
    (read : ∀ {ks rest}, Reads op.power ks right rest → ReadsContinued left op ks e rest) : e.Printable := by
  refine .operation plain spine ?_ fun rest stops => ?_
  · rw [shape]
    exact first.writes.grouped.append second.writes.grouped.symbol
  · rw [shape,JsonQuery.joined,List.append_assoc]
    exact reads_grouped (first.closed _) (.more (Operator.ofKind?_some.mpr rfl) (power_positive op)
      (read (second.grouped op.power stops)) (.done (by simp [stops.operator])))

theorem Printable.prefixed {inner e : Expr} (printable : inner.Printable) {s : Symbol}
    (shape : e.phrase false = .symbol s :: JsonQuery.grouped (inner.phrase false))
    (plain : e.isProjection = false) (spine : e.Spine)
    (read : ∀ {ks rest}, Reads power ks inner rest → ReadsOperand (.symbol s) ks e rest) : e.Printable := by
  refine .operation plain spine (shape ▸ printable.writes.grouped.symbol) fun rest stops => ?_
  rw [shape]
  exact .expression (read (printable.grouped power stops)) (.done (by simp [stops.operator]))

theorem commas_read {P : List TokenKind → List α → Prop} {piece : α → List TokenKind} {xs : List α}
    (some : xs ≠ []) (last : ∀ x ∈ xs, P (piece x ++ behind) [x])
    (more : ∀ x ∈ xs, ∀ ks later, P ks later → P (piece x ++ .symbol .comma :: ks) (x :: later)) :
    P (commas (xs.map piece) ++ behind) xs := by
  induction xs with
  | nil => exact absurd rfl some
  | cons x xs ih =>
      obtain ⟨here,others⟩ := List.forall_mem_cons.mp last
      obtain ⟨joins,later⟩ := List.forall_mem_cons.mp more
      cases xs with
      | nil => simpa [commas] using here
      | cons next xs =>
          have read := ih (by simp) others later
          simpa [commas] using joins _ _ read

-- Every expression of a list stands in parentheses, so a comma or the end comes behind it.
theorem items_read (closes : closing = .rightBracket ∨ closing = .rightParen) {es : List Expr} (some : es ≠ [])
    (each : ∀ e ∈ es, e.Printable) (rest : List TokenKind) :
    ReadsItems closing (commas (phrases es) ++ [.symbol closing] ++ rest) es rest := by
  have stops : Stops (.symbol closing :: rest) := by
    rcases closes with rfl | rfl <;> exact closer_stops _ (by decide) _
  rw [phrases_map,List.append_assoc]
  refine commas_read (P := fun ks es => ReadsItems closing ks es rest) some (fun e inside => ?_)
    fun e inside ks later read => ?_
  · exact .last ((each e inside).grouped 0 stops)
  · exact .more ((each e inside).grouped 0 (closer_stops .comma (by decide) ks)) read

theorem entries_read {es : List (String × Expr)} (some : es ≠ [])
    (each : ∀ entry ∈ es, entry.2.Printable) (rest : List TokenKind) :
    ReadsEntries (commas (namedPhrases entryFront es) ++ [.symbol .rightBrace] ++ rest) es rest := by
  rw [namedPhrases_map,List.append_assoc]
  refine commas_read (P := fun ks es => ReadsEntries ks es rest) some (fun entry inside => ?_)
    fun entry inside ks later read => ?_
  · exact .last rfl ((each entry inside).grouped 0 (closer_stops .rightBrace (by decide) rest))
  · exact .more rfl ((each entry inside).grouped 0 (closer_stops .comma (by decide) ks)) read

theorem bindings_read {bs : List (String × Expr)} (some : bs ≠ [])
    (each : ∀ binding ∈ bs, binding.2.Printable) (rest : List TokenKind) :
    ReadsBindings (commas (namedPhrases bindingFront bs) ++ .identifier "in" :: rest) bs
      (.identifier "in" :: rest) := by
  rw [namedPhrases_map]
  refine commas_read (P := fun ks bs => ReadsBindings ks bs (.identifier "in" :: rest)) some
    (fun binding inside => ?_) fun binding inside ks later read => ?_
  · exact .last ((each binding inside).grouped 0 (word_stops rest)) (by simp)
  · exact .more ((each binding inside).grouped 0 (closer_stops .comma (by decide) ks)) read

theorem phrases_writes {es : List Expr} (each : ∀ e ∈ es, e.Printable) :
    Writes (commas (phrases es)) := by
  rw [phrases_map]
  exact .commas (List.forall_mem_map.mpr fun e inside => (each e inside).writes.grouped)

theorem namedPhrases_writes {es : List (String × Expr)}
    (each : ∀ entry ∈ es, Writes (front entry.1) ∧ entry.2.Printable) :
    Writes (commas (namedPhrases front es)) := by
  rw [namedPhrases_map]
  refine .commas (List.forall_mem_map.mpr fun entry inside => ?_)
  obtain ⟨named,printable⟩ := each entry inside
  exact named.append printable.writes.grouped

theorem Printable.field (name : String) : (Expr.field name).Printable :=
  .operand rfl rfl (.cons trivial .nil) fun _ follows => .quoted follows.call

theorem arguments_read {es : List Expr} (each : ∀ e ∈ es, e.Printable) (rest : List TokenKind) :
    ReadsArguments (commas (phrases es) ++ [.symbol .rightParen] ++ rest) es rest := by
  cases es with
  | nil => exact .none
  | cons e es => exact .some rfl (items_read (.inr rfl) (by simp) each rest)

theorem Printable.call (named : (TokenKind.identifier name).Writable) {es : List Expr}
    (each : ∀ e ∈ es, e.Printable) : (Expr.call name es).Printable :=
  .operand rfl rfl (.cons named (phrases_writes each).grouped) fun rest _ => .call (arguments_read each rest)

theorem Printable.list {es : List Expr} (some : es ≠ []) (each : ∀ e ∈ es, e.Printable) :
    (Expr.list es).Printable := by
  refine .operand rfl rfl (phrases_writes each).bracketed fun rest _ => ?_
  obtain ⟨e,es,rfl⟩ := List.exists_cons_of_ne_nil some
  exact .list rfl (items_read (.inl rfl) some each rest)

theorem Printable.hash {es : List (String × Expr)} (some : es ≠ [])
    (each : ∀ entry ∈ es, entry.2.Printable) : (Expr.hash es).Printable := by
  have writes : Writes (commas (namedPhrases entryFront es)) := namedPhrases_writes fun entry inside =>
    ⟨.cons trivial (.symbol .nil),each entry inside⟩
  exact .operand rfl rfl (.symbol (writes.append (.symbol .nil))) fun rest _ =>
    .hash (entries_read some each rest)

theorem Printable.letIn {bs : List (String × Expr)} {body : Expr} (some : bs ≠ [])
    (each : ∀ binding ∈ bs, (TokenKind.variable binding.1).Writable ∧ binding.2.Printable)
    (inner : body.Printable) : (Expr.letIn bs body).Printable := by
  have names : Writes (commas (namedPhrases bindingFront bs)) := namedPhrases_writes fun binding inside =>
    ⟨.cons (each binding inside).1 (.symbol .nil),(each binding inside).2⟩
  have word : ∀ word ∈ ["let","in"], (TokenKind.identifier word).Writable := by
    simp only [List.mem_cons,List.not_mem_nil,or_false]
    rintro _ (rfl | rfl) <;> exact ⟨by decide,by decide⟩
  refine .operation rfl rfl (.cons (word "let" (by simp)) (names.append
    (.cons (word "in" (by simp)) inner.writes.grouped))) fun rest stops => ?_
  have bound := bindings_read some (fun binding inside => (each binding inside).2)
    (JsonQuery.grouped (body.phrase false) ++ rest)
  have read : Reads 0 _ _ rest := .expression (.letIn bound (inner.grouped 0 stops)) (.done (by simp [stops.operator]))
  simpa [phrase] using read

end Expr

-- Behind a dot.
theorem Fragment.Printable.select {e : Expr} (printable : e.Printable)
    (dotted : e.phrase true = .symbol .dot :: e.phrase false)
    (read : ∀ rest, Follows rest → ReadsSelected (e.phrase false ++ rest) (.select e) rest) :
    (Fragment.select e).Printable where
  writes := by
    rw [phrase,dotted]
    exact printable.writes.symbol
  reads := ⟨.dot,_,dotted,fun _ rest follows => .dot (read rest follows)⟩
  selected _ same := Fragment.select.inj same ▸ printable

theorem Fragment.Printable.values : Fragment.values.Printable :=
  ⟨.symbol (.symbol .nil),⟨.dot,_,rfl,fun _ _ _ => .dot .values⟩,nofun⟩

theorem Fragment.Printable.filter {condition : Expr} (printable : condition.Printable) :
    (Fragment.filter condition).Printable := by
  refine ⟨.symbol (printable.writes.grouped.append (.symbol .nil)),⟨.filter,_,rfl,fun left rest _ => ?_⟩,nofun⟩
  rw [List.append_assoc]
  exact .filter (printable.grouped 0 (closer_stops .rightBracket (by decide) rest))

theorem Fragment.Printable.index (word : (TokenKind.integer i).Writable) : (Fragment.index i).Printable :=
  ⟨Writes.bracketed (.cons word .nil),⟨.bracket,_,rfl,fun _ _ _ => .bracket .index⟩,nofun⟩

theorem Fragment.Printable.wildcard : Fragment.wildcard.Printable :=
  ⟨Writes.bracketed (.symbol .nil),⟨.bracket,_,rfl,fun _ _ _ => .bracket .wildcard⟩,nofun⟩

theorem Fragment.Printable.slice (writes : Writes (Slice.phrase s)) : (Fragment.slice s).Printable := by
  obtain ⟨ks,shape,read⟩ := s.reads
  exact ⟨writes,⟨.bracket,ks,shape,fun _ rest _ => .bracket (read rest)⟩,nofun⟩

namespace Parser

def Sourced (ks : List TokenKind) : Prop := ∀ k ∈ ks, k.Readable

theorem Sourced.head (given : Sourced (k :: ks)) : k.Readable := given k List.mem_cons_self

theorem Sourced.behind (given : Sourced (y ++ ks)) : Sourced ks :=
  fun k inside => given k (List.mem_append_right y inside)

theorem Sourced.tail (given : Sourced (k :: ks)) : Sourced ks := given.behind (y := [k])

theorem Sourced.bound {b : Option Int} (given : Sourced (bound b ++ ks)) : Writes (bound b) := by
  cases b with
  | none => exact .nil
  | some n => exact .cons given.head .nil

theorem ReadsBracket.printable (read : ReadsBracket ks f rest) (given : Sourced ks) : f.Printable := by
  cases read with
  | index => exact .index given.head
  | slice =>
      have stop := given.behind.tail.bound
      exact .slice (given.bound.append (stop.append .nil).symbol).bracketed
  | @stepped start stop step =>
      have last := given.behind.tail.behind.tail.bound
      have stop := given.behind.tail.bound
      refine .slice (given.bound.append (stop.append ?_).symbol).bracketed
      cases step with
      | none => exact .nil
      | some n => exact last.symbol
  | wildcard => exact .wildcard

-- Every tree that is read can be printed: no step of the parser builds another.
mutual
theorem Reads.printable : Reads power ks e rest → Sourced ks → e.Printable
  | .expression first more,given => by
      have before := first.printable given
      obtain ⟨y,rfl,_⟩ := first.derived
      exact more.printable given.tail.behind before

theorem ReadsOperand.printable :
    ReadsOperand kind ks e rest → Sourced (kind :: ks) → e.Printable
  | .field _ _,_ | .quoted _,_ => .field _
  | .rawString,given => .operand rfl rfl (.cons given.head .nil) fun _ _ => .rawString
  | .literal,given => .operand rfl rfl (.cons given.head .nil) fun _ _ => .literal
  | .variable,given => .operand rfl rfl (.cons given.head .nil) fun _ _ => .variable
  | .current,_ => .current
  | .root,_ => .operand rfl rfl (.symbol .nil) fun _ _ => .root
  | .call arguments,given => .call given.head (arguments.printable given.tail.tail)
  | .letIn names inner,given => by
      obtain ⟨some,each⟩ := names.printable given.tail
      obtain ⟨v,rfl,named⟩ := names.derived
      exact .letIn some each (inner.printable given.tail.behind.tail)
  | .values,_ => .opened .values
  | .not inner,given => (inner.printable given.tail).prefixed rfl rfl rfl .not
  | .reference inner,given => (inner.printable given.tail).prefixed rfl rfl rfl .reference
  | .group inner,given => inner.printable given.tail
  | .hash entries,given => by
      obtain ⟨some,each⟩ := entries.printable given.tail
      exact .hash some each
  | .list _ items,given => by
      obtain ⟨some,each⟩ := items.printable given.tail
      exact .list some each
  | .bracket piece,given => .opened (piece.printable given.tail)
  | .flatten,_ => Expr.Printable.current.flattened
  | .filter condition,given => .opened (.filter (condition.printable given.tail))

theorem ReadsOperators.printable :
    ReadsOperators power left ks e rest → Sourced ks → left.Printable → e.Printable
  | .done _,_,before => before
  | .more _ _ first later,given,before => by
      have next := first.printable given.tail before
      obtain ⟨y,rfl,_⟩ := first.derived
      exact later.printable given.tail.behind next

theorem ReadsContinued.printable :
    ReadsContinued left op ks e rest → Sourced ks → left.Printable → e.Printable
  | .pipe right,given,before => before.joins .pipe (right.printable given) rfl rfl rfl .pipe
  | .or right,given,before => before.joins .or (right.printable given) rfl rfl rfl .or
  | .and right,given,before => before.joins .and (right.printable given) rfl rfl rfl .and
  | .compare right,given,before => before.joins (.compare _) (right.printable given) rfl rfl rfl .compare
  | .flatten,_,before => before.flattened
  | .bracket piece,given,before => before.attach (piece.printable given)
  | .filter condition,given,before => before.attach (.filter (condition.printable given))
  | .dot selected,given,before => before.attach (selected.printable given)

theorem ReadsSelected.printable : ReadsSelected ks f rest → Sourced ks → f.Printable
  | .field _,_ | .quoted _,_ => .select (.field _) rfl fun _ follows => .quoted follows.call
  | .call arguments,given => by
      have each := arguments.printable given.tail.tail
      exact .select (.call given.head each) rfl fun rest _ => .call (Expr.arguments_read each rest)
  | .values,_ => .values
  | .list items,given => by
      obtain ⟨some,each⟩ := items.printable given.tail
      exact .select (.list some each) rfl fun rest _ => .list (Expr.items_read (.inl rfl) some each rest)
  | .hash entries,given => by
      obtain ⟨some,each⟩ := entries.printable given.tail
      exact .select (.hash some each) rfl fun rest _ => .hash (Expr.entries_read some each rest)

theorem ReadsArguments.printable :
    ReadsArguments ks es rest → Sourced ks → ∀ e ∈ es, e.Printable
  | .none,_ => nofun
  | .some _ items,given => (items.printable given).2

theorem ReadsItems.printable :
    ReadsItems closing ks es rest → Sourced ks → es ≠ [] ∧ ∀ e ∈ es, e.Printable
  | .last item,given => ⟨nofun,by simpa using item.printable given⟩
  | .more item later,given => by
      have first := item.printable given
      obtain ⟨y,rfl,_⟩ := item.derived
      exact ⟨nofun,List.forall_mem_cons.mpr ⟨first,(later.printable given.behind.tail).2⟩⟩

theorem ReadsEntries.printable :
    ReadsEntries ks es rest → Sourced ks → es ≠ [] ∧ ∀ entry ∈ es, entry.2.Printable
  | .last _ value,given => ⟨nofun,by simpa using value.printable given.tail.tail⟩
  | .more _ value later,given => by
      have first := value.printable given.tail.tail
      obtain ⟨y,rfl,_⟩ := value.derived
      exact ⟨nofun,List.forall_mem_cons.mpr ⟨first,(later.printable given.tail.tail.behind.tail).2⟩⟩

theorem ReadsBindings.printable : ReadsBindings ks bs rest → Sourced ks →
    bs ≠ [] ∧ ∀ binding ∈ bs, (TokenKind.variable binding.1).Writable ∧ binding.2.Printable
  | .last value _,given =>
      ⟨nofun,List.forall_mem_singleton.mpr ⟨given.head,value.printable given.tail.tail⟩⟩
  | .more value later,given => by
      have first := value.printable given.tail.tail
      have named := given.head
      obtain ⟨y,rfl,_⟩ := value.derived
      exact ⟨nofun,List.forall_mem_cons.mpr ⟨⟨named,first⟩,(later.printable given.tail.tail.behind.tail).2⟩⟩
end

end Parser
end JsonQuery
