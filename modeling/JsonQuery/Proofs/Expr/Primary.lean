import JsonQuery.Proofs.Expr.Lookahead

namespace JsonQuery.Parser

open Grammar

-- What was taken is taken in the same way before anything that may follow a name.
def Loose (R : List TokenKind → List TokenKind → Prop) (ks rest : List TokenKind) : Prop :=
  ∃ y, ks = y ++ rest ∧ ∀ rest', Follows rest' → R (y ++ rest') rest'

section
variable {R S T : List TokenKind → List TokenKind → Prop}

theorem Loose.nothing (each : ∀ rest', Follows rest' → R rest' rest') : Loose R rest rest := ⟨[],rfl,each⟩

theorem Loose.front (front : List TokenKind) (reading : Loose (fun ks rest => R (front ++ ks) rest) ks rest) :
    Loose R (front ++ ks) rest := by
  obtain ⟨y,rfl,each⟩ := reading
  refine ⟨front ++ y,(List.append_assoc ..).symm,fun rest' follows => ?_⟩
  rw [List.append_assoc]
  exact each rest' follows

theorem Sealed.loose (reading : Sealed R ks rest) (step : ∀ ks rest, R ks rest → S ks rest) : Loose S ks rest := by
  obtain ⟨y,_,rfl,each⟩ := reading
  exact ⟨y,rfl,fun rest' _ => step _ _ (each rest')⟩

theorem Local.sealed (reading : Local R ks (k :: rest)) (step : ∀ ks rest, R ks (k :: rest) → S ks rest) :
    Sealed S ks rest := by
  obtain ⟨y,rfl,each⟩ := reading
  refine ⟨y ++ [k],by simp,(List.append_assoc y [k] rest).symm,fun rest' => ?_⟩
  rw [List.append_assoc]
  exact step _ _ (each (k :: rest') rfl)

theorem Sealed.then (first : Sealed R ks middle) (second : Sealed S middle rest)
    (step : ∀ ks middle rest, R ks middle → S middle rest → T ks rest) : Sealed T ks rest := by
  obtain ⟨y,present,rfl,read⟩ := first
  obtain ⟨z,_,rfl,more⟩ := second
  refine ⟨y ++ z,by simp [present],(List.append_assoc ..).symm,fun rest' => ?_⟩
  rw [List.append_assoc]
  exact step _ _ _ (read _) (more _)

theorem Sealed.front (front : List TokenKind) (reading : Sealed (fun ks rest => R (front ++ ks) rest) ks rest) :
    Sealed R (front ++ ks) rest := by
  obtain ⟨y,present,rfl,each⟩ := reading
  refine ⟨front ++ y,by simp [present],(List.append_assoc ..).symm,fun rest' => ?_⟩
  rw [List.append_assoc]
  exact each rest'

end

mutual
theorem ReadsItems.sealed : ReadsItems closing ks es rest → Sealed (ReadsItems closing · es ·) ks rest
  | .last item => item.local.sealed fun _ _ => .last
  | .more item later => .then (item.local.sealed fun _ _ => id) later.sealed fun _ _ _ => .more

theorem ReadsEntries.sealed : ReadsEntries ks es rest → Sealed (ReadsEntries · es ·) ks rest
  | .last named value => .front [_,_] (value.local.sealed fun _ _ => .last named)
  | .more named value later =>
      .front [_,_] (.then (value.local.sealed fun _ _ => id) later.sealed fun _ _ _ => .more named)
end

theorem ReadsArguments.sealed (read : ReadsArguments ks es rest) : Sealed (ReadsArguments · es ·) ks rest := by
  cases read with
  | none => exact ⟨[_],by simp,rfl,fun _ => .none⟩
  | some opened items =>
      obtain ⟨y,present,rfl,each⟩ := items.sealed
      refine ⟨y,present,rfl,fun rest' => .some ?_ (each rest')⟩
      cases y with
      | nil => exact absurd rfl present
      | cons k y =>
          have same : ahead (k :: y ++ rest') = ahead (k :: y ++ rest) := rfl
          exact (closesCall_ahead same).trans opened

theorem ReadsSelected.loose (read : ReadsSelected ks f rest) : Loose (ReadsSelected · f ·) ks rest := by
  cases read with
  | field => exact .front [_] (.nothing fun _ follows => .field follows.call)
  | call arguments => exact .front [_,_] (arguments.sealed.loose fun _ _ => .call)
  | quoted => exact .front [_] (.nothing fun _ follows => .quoted follows.call)
  | values => exact .front [_] (.nothing fun _ _ => .values)
  | list items => exact .front [_] (items.sealed.loose fun _ _ => .list)
  | hash entries => exact .front [_] (entries.sealed.loose fun _ _ => .hash)

-- A postfix fragment; the right side of a binary operator depends on more.
theorem ReadsContinued.loose (tight : 5 < op.power) :
    ReadsContinued left op ks e rest → Loose (ReadsContinued left op · e ·) ks rest
  | .flatten => .nothing fun _ _ => .flatten
  | .bracket piece => piece.sealed.loose fun _ _ => .bracket
  | .filter condition => (condition.local.sealed fun _ _ => .filter).loose fun _ _ => id
  | .dot selected => by
      obtain ⟨y,rfl,each⟩ := selected.loose
      exact ⟨y,rfl,fun rest' follows => .dot (each rest' follows)⟩
  | .pipe _ | .or _ | .and _ => absurd tight (by decide)
  | .compare _ => absurd tight (Nat.lt_irrefl 5)

-- Neither a prefix nor the word of a binding.
structure Bare (kind : TokenKind) (ks : List TokenKind) : Prop where
  not : kind ≠ .symbol .not
  reference : kind ≠ .symbol .ampersand
  free : kind = .identifier "let" → opensBinding ks = false

theorem ReadsOperand.loose (bare : Bare kind ks) :
    ReadsOperand kind ks e rest → Loose (ReadsOperand kind · e ·) ks rest
  | .field _ _ => .nothing fun _ follows => .field follows.call fun _ => follows.binding
  | .call arguments => .front [_] (arguments.sealed.loose fun _ _ => .call)
  | .letIn names _ => by cases names <;> cases bare.free rfl
  | .quoted _ => .nothing fun _ follows => .quoted follows.call
  | .rawString => .nothing fun _ _ => .rawString
  | .literal => .nothing fun _ _ => .literal
  | .variable => .nothing fun _ _ => .variable
  | .current => .nothing fun _ _ => .current
  | .root => .nothing fun _ _ => .root
  | .values => .nothing fun _ _ => .values
  | .not _ => absurd rfl bare.not
  | .reference _ => absurd rfl bare.reference
  | .group inner => (inner.local.sealed fun _ _ => .group).loose fun _ _ => id
  | .hash entries => entries.sealed.loose fun _ _ => .hash
  | .list plain items => by
      obtain ⟨y,_,rfl,each⟩ := items.sealed
      exact ⟨y,rfl,fun rest' _ => .list (items.bracket_local plain rest') (each rest')⟩
  | .bracket piece => piece.sealed.loose fun _ _ => .bracket
  | .flatten => .nothing fun _ _ => .flatten
  | .filter condition => (condition.local.sealed fun _ _ => .filter).loose fun _ _ => id

end JsonQuery.Parser

namespace JsonQuery.Grammar

open JsonQuery.Parser

theorem Atom.bare (atom : Atom (k :: y)) (follows : Follows rest) : Bare k (y ++ rest) := by
  cases atom with
  | identifier => exact ⟨nofun,nofun,fun _ => follows.binding⟩
  | call called => cases called <;> exact ⟨nofun,nofun,fun _ => rfl⟩
  | hash selected => cases selected; exact ⟨nofun,nofun,nofun⟩
  | list selected => cases selected; exact ⟨nofun,nofun,nofun⟩
  | bracket piece => cases piece <;> exact ⟨nofun,nofun,nofun⟩
  | _ => exact ⟨nofun,nofun,nofun⟩

-- An atom and the fragments behind it.
def Primary (ks : List TokenKind) : Prop := ∃ a x, Atom a ∧ Accesses x ∧ ks = a ++ x

-- The loop goes through the fragments in the same way, however the operators go on behind.
theorem Accesses.carried (follows : Follows r) (bounded : power ≤ 5)
    (behind : ReadsOperators power t r e rest) : Accesses x → ReadsOperators 0 left x t [] →
      ReadsOperators power left (x ++ r) e rest
  | .none, read => by
      cases read
      exact behind
  | @Accesses.some u w first more, read => by
      have alone : Follows (w ++ []) := more.continues.follows ⟨rfl,rfl⟩
      rw [List.append_nil] at alone
      obtain ⟨op,y,rfl,strong,continued⟩ := first.reads (below_all _) (Nat.le_refl _) alone
      obtain ⟨next,taken⟩ := continued left
      have found : Operator.ofKind? (.symbol op.symbol) = Option.some op := Operator.ofKind?_some.mpr rfl
      cases read with
      | more found' _ taken' later =>
          cases found'.symm.trans found
          obtain ⟨rfl,rfl⟩ := ReadsContinued.unique left op _ _ _ _ _ taken taken'
          obtain ⟨z,split,each⟩ := taken.loose strong
          cases List.append_cancel_right split
          have again := each (w ++ r) (more.continues.follows follows)
          rw [List.append_assoc]
          exact .more found (by omega) again (more.carried follows bounded behind later)

-- What a primary is read as alone it is read as in front of an operator.
theorem Primary.carried (primary : Primary ks) (alone : Reads 0 ks t []) (follows : Follows r)
    (bounded : power ≤ 5) (behind : ReadsOperators power t r e rest) : Reads power (ks ++ r) e rest := by
  obtain ⟨a,x,atom,accesses,rfl⟩ := primary
  have ended : Follows (x ++ []) := accesses.continues.follows ⟨rfl,rfl⟩
  rw [List.append_nil] at ended
  obtain ⟨k,y,left,rfl,first⟩ := atom.reads (below_all _) (Nat.le_refl _) ended
  cases alone with
  | expression first' more =>
      obtain ⟨rfl,rfl⟩ := ReadsOperand.unique k _ _ _ _ _ first first'
      obtain ⟨z,split,each⟩ := first.loose (atom.bare ended)
      cases List.append_cancel_right split
      have again := each (x ++ r) (accesses.continues.follows follows)
      rw [List.append_assoc]
      exact .expression again (accesses.carried follows bounded behind more)

end JsonQuery.Grammar
