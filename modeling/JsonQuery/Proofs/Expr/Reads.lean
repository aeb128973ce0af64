import JsonQuery.Expr.Parser

namespace JsonQuery.Parser

-- What the first tokens of a text decide.
def opensCall : List TokenKind → Bool
  | .symbol .leftParen :: _ => true
  | _ => false

def opensBinding : List TokenKind → Bool
  | .variable _ :: _ => true
  | _ => false

def opensBracket : List TokenKind → Bool
  | .integer _ :: _ => true
  | .symbol .colon :: _ => true
  | .symbol .star :: .symbol .rightBracket :: _ => true
  | _ => false

def closesCall : List TokenKind → Bool
  | .symbol .rightParen :: _ => true
  | _ => false

def operator? : List TokenKind → Option Operator
  | kind :: _ => Operator.ofKind? kind
  | [] => none

def key? : TokenKind → Option String
  | .identifier key => some key
  | .quotedIdentifier key => some key
  | _ => none

def bound : Option Int → List TokenKind
  | some n => [.integer n]
  | none => []

-- Behind an opening bracket.
inductive ReadsBracket : List TokenKind → Fragment → List TokenKind → Prop where
  | index : ReadsBracket (.integer n :: .symbol .rightBracket :: rest) (.index n) rest
  | slice : ReadsBracket (bound start ++ .symbol .colon :: (bound stop ++ .symbol .rightBracket :: rest))
      (.slice ⟨start,stop,none⟩) rest
  | stepped : ReadsBracket (bound start ++ .symbol .colon :: (bound stop ++ .symbol .colon ::
      (bound step ++ .symbol .rightBracket :: rest))) (.slice ⟨start,stop,step⟩) rest
  | wildcard : ReadsBracket (.symbol .star :: .symbol .rightBracket :: rest) .wildcard rest

-- What the parser reads and what it leaves, without streams, positions or bounds. Each
-- constructor is one way on which no fault is met.
mutual
inductive Reads : Nat → List TokenKind → Expr → List TokenKind → Prop where
  | expression (first : ReadsOperand kind kinds left middle)
      (more : ReadsOperators power left middle e rest) : Reads power (kind :: kinds) e rest

inductive ReadsOperand : TokenKind → List TokenKind → Expr → List TokenKind → Prop where
  | field (plain : opensCall rest = false) (free : name = "let" → opensBinding rest = false) :
      ReadsOperand (.identifier name) rest (.field name) rest
  | call (arguments : ReadsArguments kinds es rest) :
      ReadsOperand (.identifier name) (.symbol .leftParen :: kinds) (.call name es) rest
  | letIn (names : ReadsBindings kinds bs (.identifier "in" :: middle))
      (inner : Reads 0 middle body rest) :
      ReadsOperand (.identifier "let") kinds (.letIn bs body) rest
  | quoted (plain : opensCall rest = false) :
      ReadsOperand (.quotedIdentifier name) rest (.field name) rest
  | rawString : ReadsOperand (.rawString s) rest (.rawString s) rest
  | literal : ReadsOperand (.literal text) rest (.literal text) rest
  | variable : ReadsOperand (.variable name) rest (.variable name) rest
  | current : ReadsOperand (.symbol .at) rest .current rest
  | root : ReadsOperand (.symbol .dollar) rest .root rest
  | values : ReadsOperand (.symbol .star) rest (Expr.current.apply .values) rest
  | not (inner : Reads Operator.notPower kinds e rest) :
      ReadsOperand (.symbol .not) kinds (.not e) rest
  | reference (inner : Reads 0 kinds e rest) :
      ReadsOperand (.symbol .ampersand) kinds (.reference e) rest
  | group (inner : Reads 0 kinds e (.symbol .rightParen :: rest)) :
      ReadsOperand (.symbol .leftParen) kinds e rest
  | hash (entries : ReadsEntries kinds es rest) :
      ReadsOperand (.symbol .leftBrace) kinds (.hash es) rest
  | list (plain : opensBracket kinds = false) (items : ReadsItems .rightBracket kinds es rest) :
      ReadsOperand (.symbol .leftBracket) kinds (.list es) rest
  | bracket (piece : ReadsBracket kinds f rest) :
      ReadsOperand (.symbol .leftBracket) kinds (Expr.current.apply f) rest
  | flatten : ReadsOperand (.symbol .flatten) rest Expr.current.flattened rest
  | filter (condition : Reads 0 kinds e (.symbol .rightBracket :: rest)) :
      ReadsOperand (.symbol .filter) kinds (Expr.current.apply (.filter e)) rest

inductive ReadsOperators : Nat → Expr → List TokenKind → Expr → List TokenKind → Prop where
  | done (weak : ∀ op, operator? rest = some op → op.power ≤ power) :
      ReadsOperators power left rest left rest
  | more (found : Operator.ofKind? kind = some op) (strong : power < op.power)
      (first : ReadsContinued left op kinds next middle)
      (later : ReadsOperators power next middle e rest) :
      ReadsOperators power left (kind :: kinds) e rest

inductive ReadsContinued : Expr → Operator → List TokenKind → Expr → List TokenKind → Prop where
  | pipe (right : Reads Operator.pipe.power kinds e rest) :
      ReadsContinued left .pipe kinds (.pipe left e) rest
  | or (right : Reads Operator.or.power kinds e rest) :
      ReadsContinued left .or kinds (.or left e) rest
  | and (right : Reads Operator.and.power kinds e rest) :
      ReadsContinued left .and kinds (.and left e) rest
  | compare (right : Reads (Operator.compare op).power kinds e rest) :
      ReadsContinued left (.compare op) kinds (.compare op left e) rest
  | flatten : ReadsContinued left .flatten rest left.flattened rest
  | bracket (piece : ReadsBracket kinds f rest) :
      ReadsContinued left .bracket kinds (left.attach f) rest
  | filter (condition : Reads 0 kinds e (.symbol .rightBracket :: rest)) :
      ReadsContinued left .filter kinds (left.attach (.filter e)) rest
  | dot (selected : ReadsSelected kinds f rest) :
      ReadsContinued left .dot kinds (left.attach f) rest

inductive ReadsSelected : List TokenKind → Fragment → List TokenKind → Prop where
  | field (plain : opensCall rest = false) :
      ReadsSelected (.identifier name :: rest) (.select (.field name)) rest
  | call (arguments : ReadsArguments kinds es rest) :
      ReadsSelected (.identifier name :: .symbol .leftParen :: kinds) (.select (.call name es)) rest
  | quoted (plain : opensCall rest = false) :
      ReadsSelected (.quotedIdentifier name :: rest) (.select (.field name)) rest
  | values : ReadsSelected (.symbol .star :: rest) .values rest
  | list (items : ReadsItems .rightBracket kinds es rest) :
      ReadsSelected (.symbol .leftBracket :: kinds) (.select (.list es)) rest
  | hash (entries : ReadsEntries kinds es rest) :
      ReadsSelected (.symbol .leftBrace :: kinds) (.select (.hash es)) rest

inductive ReadsArguments : List TokenKind → List Expr → List TokenKind → Prop where
  | none : ReadsArguments (.symbol .rightParen :: rest) [] rest
  | some (opened : closesCall kinds = false) (items : ReadsItems .rightParen kinds es rest) :
      ReadsArguments kinds es rest

inductive ReadsItems : Symbol → List TokenKind → List Expr → List TokenKind → Prop where
  | last (item : Reads 0 kinds e (.symbol closing :: rest)) : ReadsItems closing kinds [e] rest
  | more (item : Reads 0 kinds e (.symbol .comma :: middle))
      (later : ReadsItems closing middle es rest) : ReadsItems closing kinds (e :: es) rest

inductive ReadsEntries : List TokenKind → List (String × Expr) → List TokenKind → Prop where
  | last (named : key? kind = some key) (value : Reads 0 kinds e (.symbol .rightBrace :: rest)) :
      ReadsEntries (kind :: .symbol .colon :: kinds) [(key,e)] rest
  | more (named : key? kind = some key) (value : Reads 0 kinds e (.symbol .comma :: middle))
      (later : ReadsEntries middle es rest) :
      ReadsEntries (kind :: .symbol .colon :: kinds) ((key,e) :: es) rest

inductive ReadsBindings : List TokenKind → List (String × Expr) → List TokenKind → Prop where
  | last (value : Reads 0 kinds e rest) (ended : rest.head? ≠ some (.symbol .comma)) :
      ReadsBindings (.variable name :: .symbol .assign :: kinds) [(name,e)] rest
  | more (value : Reads 0 kinds e (.symbol .comma :: middle)) (later : ReadsBindings middle bs rest) :
      ReadsBindings (.variable name :: .symbol .assign :: kinds) ((name,e) :: bs) rest
end

theorem ReadsBracket.shorter (read : ReadsBracket kinds f rest) : rest.length < kinds.length := by
  cases read <;> simp <;> omega

-- What is left is never longer, and an expression takes at least one token.
mutual
theorem Reads.shorter : Reads power kinds e rest → rest.length < kinds.length
  | .expression first more => by
      have := first.shorter
      have := more.shorter
      simp only [List.length_cons]
      omega

theorem ReadsOperand.shorter : ReadsOperand kind kinds e rest → rest.length ≤ kinds.length
  | .field _ _ | .quoted _ | .rawString | .literal | .variable | .current | .root | .values | .flatten =>
      Nat.le_refl _
  | .call arguments => by have := arguments.shorter; simp only [List.length_cons]; omega
  | .letIn names inner => by
      have := names.shorter
      have := inner.shorter
      simp only [List.length_cons] at *
      omega
  | .not inner => Nat.le_of_lt inner.shorter
  | .reference inner => Nat.le_of_lt inner.shorter
  | .group inner => by have := inner.shorter; simp only [List.length_cons] at this; omega
  | .hash entries => Nat.le_of_lt entries.shorter
  | .list _ items => Nat.le_of_lt items.shorter
  | .bracket piece => Nat.le_of_lt piece.shorter
  | .filter condition => by have := condition.shorter; simp only [List.length_cons] at this; omega

theorem ReadsOperators.shorter : ReadsOperators power left kinds e rest → rest.length ≤ kinds.length
  | .done _ => Nat.le_refl _
  | .more _ _ first later => by
      have := first.shorter
      have := later.shorter
      simp only [List.length_cons]
      omega

theorem ReadsContinued.shorter : ReadsContinued left op kinds e rest → rest.length ≤ kinds.length
  | .pipe right => Nat.le_of_lt right.shorter
  | .or right => Nat.le_of_lt right.shorter
  | .and right => Nat.le_of_lt right.shorter
  | .compare right => Nat.le_of_lt right.shorter
  | .flatten => Nat.le_refl _
  | .bracket piece => Nat.le_of_lt piece.shorter
  | .filter condition => by have := condition.shorter; simp only [List.length_cons] at this; omega
  | .dot selected => Nat.le_of_lt selected.shorter

theorem ReadsSelected.shorter : ReadsSelected kinds f rest → rest.length < kinds.length
  | .field _ | .quoted _ | .values => Nat.lt_succ_self _
  | .call arguments => by have := arguments.shorter; simp only [List.length_cons]; omega
  | .list items => by have := items.shorter; simp only [List.length_cons]; omega
  | .hash entries => by have := entries.shorter; simp only [List.length_cons]; omega

theorem ReadsArguments.shorter : ReadsArguments kinds es rest → rest.length < kinds.length
  | .none => Nat.lt_succ_self _
  | .some _ items => items.shorter

theorem ReadsItems.shorter : ReadsItems closing kinds es rest → rest.length < kinds.length
  | .last item => by have := item.shorter; simp only [List.length_cons] at this; omega
  | .more item later => by
      have := item.shorter
      have := later.shorter
      simp only [List.length_cons] at *
      omega

theorem ReadsEntries.shorter : ReadsEntries kinds es rest → rest.length < kinds.length
  | .last _ value => by have := value.shorter; simp only [List.length_cons] at *; omega
  | .more _ value later => by
      have := value.shorter
      have := later.shorter
      simp only [List.length_cons] at *
      omega

theorem ReadsBindings.shorter : ReadsBindings kinds bs rest → rest.length < kinds.length
  | .last value _ => by have := value.shorter; simp only [List.length_cons]; omega
  | .more value later => by
      have := value.shorter
      have := later.shorter
      simp only [List.length_cons] at *
      omega
end

end JsonQuery.Parser
