import JsonQuery.Proofs.Expr.Reads

namespace JsonQuery

def Operator.symbol : Operator → Symbol
  | .pipe => .pipe
  | .or => .or
  | .and => .and
  | .compare .equal => .equal
  | .compare .notEqual => .notEqual
  | .compare .less => .less
  | .compare .lessEqual => .lessEqual
  | .compare .greater => .greater
  | .compare .greaterEqual => .greaterEqual
  | .flatten => .flatten
  | .bracket => .leftBracket
  | .filter => .filter
  | .dot => .dot

theorem Operator.ofKind?_some : ofKind? kind = some op ↔ kind = .symbol op.symbol := by
  constructor
  · intro found
    unfold ofKind? at found
    split at found <;> cases found <;> rfl
  · rintro rfl
    cases op with
    | compare comparison => cases comparison <;> rfl
    | _ => rfl

namespace Grammar

open JsonQuery.Parser (bound key?)

def binaries : List Symbol :=
  [.pipe,.or,.and,.equal,.notEqual,.less,.lessEqual,.greater,.greaterEqual]

theorem binary_power (op : Operator) : op.symbol ∈ binaries ↔ op.power ≤ 5 := by
  cases op with
  | compare comparison => cases comparison <;> decide
  | _ => decide

theorem binary_operator (binary : b ∈ binaries) : ∃ op : Operator, op.symbol = b := by
  simp only [binaries,List.mem_cons,List.not_mem_nil,or_false] at binary
  rcases binary with rfl | rfl | rfl | rfl | rfl | rfl | rfl | rfl | rfl
  · exact ⟨.pipe,rfl⟩
  · exact ⟨.or,rfl⟩
  · exact ⟨.and,rfl⟩
  · exact ⟨.compare .equal,rfl⟩
  · exact ⟨.compare .notEqual,rfl⟩
  · exact ⟨.compare .less,rfl⟩
  · exact ⟨.compare .lessEqual,rfl⟩
  · exact ⟨.compare .greater,rfl⟩
  · exact ⟨.compare .greaterEqual,rfl⟩

-- The texts a query may be, as kinds of tokens. Neither the strength of an operator nor the
-- tree that is built appears here, and a phrase can have several derivations.
mutual
inductive Expression : List TokenKind → Prop where
  | operations (first : Operand u) (more : Operations w) : Expression (u ++ w)

inductive Operations : List TokenKind → Prop where
  | none : Operations []
  | some (binary : b ∈ binaries) (right : Operand u) (more : Operations w) :
      Operations (.symbol b :: (u ++ w))

inductive Operand : List TokenKind → Prop where
  | not (inner : Operand u) : Operand (.symbol .not :: u)
  | reference (inner : Operand u) : Operand (.symbol .ampersand :: u)
  | letIn (names : Bindings v) (inner : Operand u) :
      Operand (.identifier "let" :: (v ++ .identifier "in" :: u))
  | primary (first : Atom a) (more : Accesses x) : Operand (a ++ x)

inductive Bindings : List TokenKind → Prop where
  | last (value : Expression e) : Bindings (.variable name :: .symbol .assign :: e)
  | more (value : Expression e) (others : Bindings v) :
      Bindings (.variable name :: .symbol .assign :: (e ++ .symbol .comma :: v))

inductive Atom : List TokenKind → Prop where
  | identifier : Atom [.identifier name]
  | quoted : Atom [.quotedIdentifier name]
  | rawString : Atom [.rawString content]
  | literal : Atom [.literal text]
  | current : Atom [.symbol .at]
  | root : Atom [.symbol .dollar]
  | variable : Atom [.variable name]
  | star : Atom [.symbol .star]
  | call (called : Call c) : Atom c
  | group (inner : Expression e) : Atom (.symbol .leftParen :: (e ++ [.symbol .rightParen]))
  | hash (selected : Hash h) : Atom h
  | list (selected : Listed l) : Atom l
  | bracket (piece : Bracket b) : Atom b

inductive Accesses : List TokenKind → Prop where
  | none : Accesses []
  | some (first : Access x) (more : Accesses y) : Accesses (x ++ y)

inductive Access : List TokenKind → Prop where
  | identifier : Access [.symbol .dot,.identifier name]
  | quoted : Access [.symbol .dot,.quotedIdentifier name]
  | call (called : Call c) : Access (.symbol .dot :: c)
  | star : Access [.symbol .dot,.symbol .star]
  | list (selected : Listed l) : Access (.symbol .dot :: l)
  | hash (selected : Hash h) : Access (.symbol .dot :: h)
  | bracket (piece : Bracket b) : Access b

inductive Bracket : List TokenKind → Prop where
  | index : Bracket [.symbol .leftBracket,.integer n,.symbol .rightBracket]
  | slice : Bracket (.symbol .leftBracket ::
      (bound start ++ .symbol .colon :: (bound stop ++ [.symbol .rightBracket])))
  | stepped : Bracket (.symbol .leftBracket :: (bound start ++ .symbol .colon ::
      (bound stop ++ .symbol .colon :: (bound step ++ [.symbol .rightBracket]))))
  | wildcard : Bracket [.symbol .leftBracket,.symbol .star,.symbol .rightBracket]
  | flatten : Bracket [.symbol .flatten]
  | filter (condition : Expression e) :
      Bracket (.symbol .filter :: (e ++ [.symbol .rightBracket]))

inductive Call : List TokenKind → Prop where
  | plain : Call [.identifier name,.symbol .leftParen,.symbol .rightParen]
  | given (items : Items es) :
      Call (.identifier name :: .symbol .leftParen :: (es ++ [.symbol .rightParen]))

inductive Listed : List TokenKind → Prop where
  | items (items : Items es) : Listed (.symbol .leftBracket :: (es ++ [.symbol .rightBracket]))

inductive Hash : List TokenKind → Prop where
  | members (members : Members es) : Hash (.symbol .leftBrace :: (es ++ [.symbol .rightBrace]))

inductive Items : List TokenKind → Prop where
  | last (item : Expression e) : Items e
  | more (item : Expression e) (others : Items es) : Items (e ++ .symbol .comma :: es)

inductive Members : List TokenKind → Prop where
  | last (named : key? kind = some key) (value : Expression e) :
      Members (kind :: .symbol .colon :: e)
  | more (named : key? kind = some key) (value : Expression e) (others : Members es) :
      Members (kind :: .symbol .colon :: (e ++ .symbol .comma :: es))
end

-- A piece behind an operand belongs to its last primary, a binary operator to the operations.
theorem Accesses.extended (access : Access x) : Accesses y → Accesses (y ++ x)
  | .none => by simpa using Accesses.some access .none
  | .some first more => by
      rw [List.append_assoc]
      exact .some first (Accesses.extended access more)

theorem Operand.extended (access : Access x) : Operand u → Operand (u ++ x)
  | .not inner => .not (Operand.extended access inner)
  | .reference inner => .reference (Operand.extended access inner)
  | .letIn names inner => by
      rw [List.cons_append,List.append_assoc]
      exact .letIn names (Operand.extended access inner)
  | .primary first more => by
      rw [List.append_assoc]
      exact .primary first (more.extended access)

theorem Operations.extended (access : Access x) :
    Operations w → w ≠ [] → Operations (w ++ x)
  | .none, absent => absurd rfl absent
  | .some (w := rest) binary right more, _ => by
      rw [List.cons_append,List.append_assoc]
      by_cases present : rest = []
      · subst present
        simpa using Operations.some binary (right.extended access) .none
      · exact .some binary right (Operations.extended access more present)

theorem Operations.append : Operations w → Operations v → Operations (w ++ v)
  | .none, others => others
  | .some binary right more, others => by
      rw [List.cons_append,List.append_assoc]
      exact .some binary right (more.append others)

theorem Expression.extended (access : Access x) (derived : Expression e) : Expression (e ++ x) := by
  cases derived with
  | @operations u w first more =>
      by_cases present : w = []
      · subst present
        simpa using Expression.operations (first.extended access) .none
      · rw [List.append_assoc]
        exact .operations first (more.extended access present)

theorem Expression.joined (binary : b ∈ binaries) (left : Expression e) (right : Expression f) :
    Expression (e ++ .symbol b :: f) := by
  cases left with
  | operations first more =>
      cases right with
      | operations second others =>
          rw [List.append_assoc]
          exact .operations first (more.append (.some binary second others))

-- A prefix in front of an expression is one of its first operand.
theorem Expression.prefixed (put : ∀ {u}, Operand u → Operand (front ++ u)) (derived : Expression e) :
    Expression (front ++ e) := by
  cases derived with
  | operations first more =>
      rw [← List.append_assoc]
      exact .operations (put first) more

theorem Atom.expression (atom : Atom a) : Expression a := by
  simpa using Expression.operations (.primary atom .none) .none

end Grammar
end JsonQuery
