import JsonQuery.Proofs.Expr.GrammarComplete
import JsonQuery.Proofs.Expr.GrammarSound
import JsonQuery.Proofs.Expr.ParserComplete

namespace JsonQuery.Parser

open Grammar

-- What a reader sees behind what it took; behind everything that is the ending.
def ahead : List TokenKind → TokenKind
  | k :: _ => k
  | [] => .ending

theorem ahead_append (y : List TokenKind) (same : ahead rest' = ahead rest) :
    ahead (y ++ rest') = ahead (y ++ rest) := by
  cases y with
  | nil => exact same
  | cons k y => rfl

section
variable {ks ks' : List TokenKind} (same : ahead ks' = ahead ks)
include same

theorem head_ahead (s : Symbol) : ks'.head? = some (.symbol s) ↔ ks.head? = some (.symbol s) := by
  have shown (ks : List TokenKind) : ks.head? = some (.symbol s) ↔ ahead ks = .symbol s := by
    cases ks with
    | nil => exact ⟨nofun,nofun⟩
    | cons first later => exact Option.some_inj
  rw [shown,shown,same]

theorem opensCall_ahead : opensCall ks' = opensCall ks := by
  rw [Bool.eq_iff_iff,opensCall_head,opensCall_head,head_ahead same _]

theorem closesCall_ahead : closesCall ks' = closesCall ks := by
  rw [Bool.eq_iff_iff,closesCall_head,closesCall_head,head_ahead same _]

theorem opensBinding_ahead : opensBinding ks' = opensBinding ks := by
  have alone (ks : List TokenKind) : opensBinding ks = opensBinding [ahead ks] := by
    cases ks with
    | nil => rfl
    | cons k later => cases k <;> rfl
  rw [alone ks',same,← alone ks]

theorem operator_ahead : operator? ks' = operator? ks := by
  have alone (ks : List TokenKind) : operator? ks = Operator.ofKind? (ahead ks) := by cases ks <;> rfl
  rw [alone ks',same,← alone ks]

end

-- Whatever else stands behind would be left in the same way, if it begins alike.
def Local (R : List TokenKind → List TokenKind → Prop) (ks rest : List TokenKind) : Prop :=
  ∃ y, ks = y ++ rest ∧ ∀ rest', ahead rest' = ahead rest → R (y ++ rest') rest'

-- Or it closes with a token of its own, and anything may stand behind.
def Sealed (R : List TokenKind → List TokenKind → Prop) (ks rest : List TokenKind) : Prop :=
  ∃ y, y ≠ [] ∧ ks = y ++ rest ∧ ∀ rest', R (y ++ rest') rest'

section
variable {R S T : List TokenKind → List TokenKind → Prop}

theorem Sealed.local (reading : Sealed R ks rest) : Local R ks rest := by
  obtain ⟨y,_,rfl,each⟩ := reading
  exact ⟨y,rfl,fun rest' _ => each rest'⟩

theorem Local.nothing (each : ∀ rest', ahead rest' = ahead rest → R rest' rest') : Local R rest rest :=
  ⟨[],rfl,each⟩

theorem Local.front (front : List TokenKind) (reading : Local (fun ks rest => R (front ++ ks) rest) ks rest) :
    Local R (front ++ ks) rest := by
  obtain ⟨y,rfl,each⟩ := reading
  refine ⟨front ++ y,(List.append_assoc ..).symm,fun rest' same => ?_⟩
  rw [List.append_assoc]
  exact each rest' same

theorem Local.map (reading : Local R ks rest) (step : ∀ ks rest, R ks rest → S ks rest) : Local S ks rest := by
  obtain ⟨y,rfl,each⟩ := reading
  exact ⟨y,rfl,fun rest' same => step _ _ (each rest' same)⟩

theorem Local.then (first : Local R ks middle) (second : Local S middle rest)
    (step : ∀ ks middle rest, R ks middle → S middle rest → T ks rest) : Local T ks rest := by
  obtain ⟨y,rfl,read⟩ := first
  obtain ⟨z,rfl,more⟩ := second
  refine ⟨y ++ z,(List.append_assoc ..).symm,fun rest' same => ?_⟩
  rw [List.append_assoc]
  exact step _ _ _ (read _ (ahead_append z same)) (more _ same)

-- The token behind is taken too.
theorem Local.closed (reading : Local R ks (k :: rest))
    (step : ∀ ks rest, R ks (k :: rest) → S ks rest) : Local S ks rest :=
  reading.then (S := fun middle rest => middle = k :: rest) ⟨[k],rfl,fun _ _ => rfl⟩
    fun _ _ _ read same => step _ _ (same ▸ read)

end

theorem ReadsBracket.sealed (read : ReadsBracket ks f rest) : Sealed (ReadsBracket · f ·) ks rest := by
  cases read with
  | index => exact ⟨[_,_],by simp,rfl,fun _ => .index⟩
  | @slice start stop =>
      refine ⟨bound start ++ .symbol .colon :: (bound stop ++ [.symbol .rightBracket]),by simp,by simp,
        fun _ => ?_⟩
      simpa using ReadsBracket.slice
  | @stepped start stop step =>
      refine ⟨bound start ++ .symbol .colon :: (bound stop ++ .symbol .colon ::
        (bound step ++ [.symbol .rightBracket])),by simp,by simp,fun _ => ?_⟩
      simpa using ReadsBracket.stepped
  | wildcard => exact ⟨[_,_],by simp,rfl,fun _ => .wildcard⟩

theorem ReadsBracket.local (read : ReadsBracket ks f rest) : Local (ReadsBracket · f ·) ks rest := read.sealed.local

-- A list is told from a bracket by tokens that it takes itself.
theorem ReadsItems.bracket_local (read : ReadsItems .rightBracket (y ++ rest) es rest)
    (plain : opensBracket (y ++ rest) = false) (rest' : List TokenKind) :
    opensBracket (y ++ rest') = false := by
  obtain ⟨z,split,items⟩ := read.derived
  have whole : y ++ rest = z ++ [.symbol .rightBracket] ++ rest := by simpa using split
  obtain rfl := List.append_cancel_right whole
  rw [List.append_assoc,List.singleton_append] at plain ⊢
  rw [Bool.eq_false_iff]
  intro opened
  obtain ⟨rfl,_⟩ := (items.opens _).2 opened
  cases plain

mutual
theorem Reads.local : Reads power ks e rest → Local (Reads power · e ·) ks rest
  | .expression first more =>
      .front [_] (first.local.then more.local fun _ _ _ => .expression)

theorem ReadsOperand.local : ReadsOperand kind ks e rest → Local (ReadsOperand kind · e ·) ks rest
  | .field plain free => .nothing fun _ same => .field (opensCall_ahead same ▸ plain)
      fun word => opensBinding_ahead same ▸ free word
  | .call arguments => .front [_] (arguments.local.map fun _ _ => .call)
  | .letIn names inner => .then (names.local.closed fun _ _ => id) inner.local fun _ _ _ => .letIn
  | .quoted plain => .nothing fun _ same => .quoted (opensCall_ahead same ▸ plain)
  | .rawString => .nothing fun _ _ => .rawString
  | .literal => .nothing fun _ _ => .literal
  | .variable => .nothing fun _ _ => .variable
  | .current => .nothing fun _ _ => .current
  | .root => .nothing fun _ _ => .root
  | .values => .nothing fun _ _ => .values
  | .not inner => inner.local.map fun _ _ => .not
  | .reference inner => inner.local.map fun _ _ => .reference
  | .group inner => inner.local.closed fun _ _ => .group
  | .hash entries => entries.local.map fun _ _ => .hash
  | .list plain items => by
      obtain ⟨y,rfl,each⟩ := items.local
      exact ⟨y,rfl,fun rest' same => .list (items.bracket_local plain rest') (each rest' same)⟩
  | .bracket piece => piece.local.map fun _ _ => .bracket
  | .flatten => .nothing fun _ _ => .flatten
  | .filter condition => condition.local.closed fun _ _ => .filter

theorem ReadsOperators.local :
    ReadsOperators power left ks e rest → Local (ReadsOperators power left · e ·) ks rest
  | .done weak => .nothing fun _ same => .done (operator_ahead same ▸ weak)
  | .more found strong first later =>
      .front [_] (first.local.then later.local fun _ _ _ => .more found strong)

theorem ReadsContinued.local :
    ReadsContinued left op ks e rest → Local (ReadsContinued left op · e ·) ks rest
  | .pipe right => right.local.map fun _ _ => .pipe
  | .or right => right.local.map fun _ _ => .or
  | .and right => right.local.map fun _ _ => .and
  | .compare right => right.local.map fun _ _ => .compare
  | .flatten => .nothing fun _ _ => .flatten
  | .bracket piece => piece.local.map fun _ _ => .bracket
  | .filter condition => condition.local.closed fun _ _ => .filter
  | .dot selected => selected.local.map fun _ _ => .dot

theorem ReadsSelected.local : ReadsSelected ks f rest → Local (ReadsSelected · f ·) ks rest
  | .field plain => .front [_] (.nothing fun _ same => .field (opensCall_ahead same ▸ plain))
  | .call arguments => .front [_,_] (arguments.local.map fun _ _ => .call)
  | .quoted plain => .front [_] (.nothing fun _ same => .quoted (opensCall_ahead same ▸ plain))
  | .values => .front [_] (.nothing fun _ _ => .values)
  | .list items => .front [_] (items.local.map fun _ _ => .list)
  | .hash entries => .front [_] (entries.local.map fun _ _ => .hash)

theorem ReadsArguments.local : ReadsArguments ks es rest → Local (ReadsArguments · es ·) ks rest
  | .none => .front [_] (.nothing fun _ _ => .none)
  | .some opened items => by
      obtain ⟨y,rfl,each⟩ := items.local
      exact ⟨y,rfl,fun rest' same =>
        .some (closesCall_ahead (ahead_append y same) ▸ opened) (each rest' same)⟩

theorem ReadsItems.local : ReadsItems closing ks es rest → Local (ReadsItems closing · es ·) ks rest
  | .last item => item.local.closed fun _ _ => .last
  | .more item later => .then (item.local.closed fun _ _ => id) later.local fun _ _ _ => .more

theorem ReadsEntries.local : ReadsEntries ks es rest → Local (ReadsEntries · es ·) ks rest
  | .last named value => .front [_,_] (value.local.closed fun _ _ => .last named)
  | .more named value later =>
      .front [_,_] (.then (value.local.closed fun _ _ => id) later.local fun _ _ _ => .more named)

theorem ReadsBindings.local : ReadsBindings ks bs rest → Local (ReadsBindings · bs ·) ks rest
  | .last value ended => by
      obtain ⟨y,rfl,each⟩ := value.local
      exact .front [_,_] ⟨y,rfl,fun rest' same => .last (each rest' same)
        fun comma => ended ((head_ahead same _).mp comma)⟩
  | .more value later =>
      .front [_,_] (.then (value.local.closed fun _ _ => id) later.local fun _ _ _ => .more)
end

-- What a parser finds whenever the relation allows it, the relation allows in one way only.
def Unique (R : List TokenKind → α → List TokenKind → Prop) : Prop :=
  ∀ ks a rest b rest', R ks a rest → R ks b rest' → a = b ∧ rest = rest'

theorem Complete.unique {R : List TokenKind → α → List TokenKind → Prop}
    (complete : ∀ limit, ∃ parse, Complete ⟨.ending,"",.start⟩ R limit parse) : Unique R := by
  intro ks a rest b rest' first second
  obtain ⟨parse,found⟩ := complete ks.length
  let ts : List Token := ks.map fun k => ⟨k,"",.start⟩
  have same : kinds ts = ks := (List.map_map ..).trans (List.map_id ks)
  have fits : ts.length ≤ ks.length := by simp [ts]
  obtain ⟨later,rfl,parsed⟩ := found ts ks a rest first same fits
  obtain ⟨later',rfl,parsed'⟩ := found ts ks b rest' second same fits
  cases parsed.symm.trans parsed'
  exact ⟨rfl,rfl⟩

theorem Reads.unique (power : Nat) : Unique (Reads power) :=
  Complete.unique fun limit => ⟨_,expression_complete rfl limit power⟩

theorem ReadsOperand.unique (kind : TokenKind) : Unique (ReadsOperand kind) :=
  Complete.unique fun limit =>
    ⟨_,operand_complete rfl (expression_complete rfl limit) ⟨kind,"",.start⟩⟩

theorem ReadsContinued.unique (left : Expr) (op : Operator) : Unique (ReadsContinued left op) :=
  Complete.unique fun limit => ⟨_,continued_complete rfl (expression_complete rfl limit) left op .start⟩

theorem ReadsBindings.unique : Unique ReadsBindings := by
  refine Complete.unique fun limit => ?_
  have ending : (⟨.ending,"",.start⟩ : Token).kind = .ending := rfl
  have found := bindings_complete ending (expression_complete ending limit) limit
  rw [Nat.min_self] at found
  exact ⟨_,found⟩

-- So with the same token behind it the same is read again, and nothing else.
theorem Local.settled {R : List TokenKind → α → List TokenKind → Prop}
    (reading : Local (R · a ·) (y ++ rest) rest) (unique : Unique R) (same : ahead rest' = ahead rest)
    (other : R (y ++ rest') b middle) : a = b ∧ rest' = middle := by
  obtain ⟨z,split,each⟩ := reading
  cases List.append_cancel_right split
  exact unique _ _ _ _ _ (each rest' same) other

theorem Local.next {R : List TokenKind → α → List TokenKind → Prop}
    (reading : Local (R · a ·) (y ++ rest) rest) (unique : Unique R) (same : ahead rest = k)
    (other : R (y ++ k :: ks) b (k' :: middle)) : k = k' ∧ ks = middle :=
  List.cons.inj (reading.settled unique (show ahead (k :: ks) = ahead rest from same.symm) other).2

end JsonQuery.Parser
