import JsonQuery.Proofs.Expr.Grammar

namespace JsonQuery.Grammar

open JsonQuery.Parser

-- A name in front of these tokens is a field, and the word `let` is one too.
structure Follows (ks : List TokenKind) : Prop where
  call : opensCall ks = false
  binding : opensBinding ks = false

structure Stops (ks : List TokenKind) : Prop extends Follows ks where
  operator : operator? ks = none

theorem closer_stops (s : Symbol) (closer : s ∈ [.comma,.rightBrace,.rightParen,.rightBracket])
    (ks : List TokenKind) : Stops (.symbol s :: ks) := by
  simp only [List.mem_cons,List.not_mem_nil,or_false] at closer
  rcases closer with rfl | rfl | rfl | rfl <;> exact ⟨⟨rfl,rfl⟩,rfl⟩

theorem word_stops (ks : List TokenKind) : Stops (.identifier "in" :: ks) := ⟨⟨rfl,rfl⟩,rfl⟩

def Continues (ks : List TokenKind) : Prop :=
  ks = [] ∨ ∃ (op : Operator) (later : List TokenKind), ks = .symbol op.symbol :: later

theorem Continues.follows (continues : Continues x) (follows : Follows ks) : Follows (x ++ ks) := by
  rcases continues with rfl | ⟨op,later,rfl⟩
  · exact follows
  · cases op with
    | compare comparison => cases comparison <;> exact ⟨rfl,rfl⟩
    | _ => exact ⟨rfl,rfl⟩

theorem Continues.open (continues : Continues x)
    (closed : (x ++ ks).head? = some (.symbol .rightBracket)) :
    x = [] ∧ ks.head? = some (.symbol .rightBracket) := by
  rcases continues with rfl | ⟨op,later,rfl⟩
  · exact ⟨rfl,closed⟩
  · cases op with
    | compare comparison => cases comparison <;> cases closed
    | _ => cases closed

theorem Operations.continues : Operations w → Continues w
  | .none => .inl rfl
  | .some binary _ _ => by
      obtain ⟨op,rfl⟩ := binary_operator binary
      exact .inr ⟨op,_,rfl⟩

theorem Bracket.continues (piece : Bracket b) : Continues b := by
  cases piece with
  | flatten => exact .inr ⟨.flatten,_,rfl⟩
  | filter => exact .inr ⟨.filter,_,rfl⟩
  | _ => exact .inr ⟨.bracket,_,rfl⟩

theorem Access.continues (access : Access x) : Continues x := by
  cases access with
  | bracket piece => exact piece.continues
  | _ => exact .inr ⟨.dot,_,rfl⟩

theorem Accesses.continues : Accesses x → Continues x
  | .none => .inl rfl
  | .some first more => by
      rcases first.continues with rfl | ⟨op,later,rfl⟩
      · exact more.continues
      · exact .inr ⟨op,_,rfl⟩

-- An expression never begins like a closed call, and like a bracket only when it is the star alone.
def Opens (ks rest : List TokenKind) : Prop :=
  closesCall (ks ++ rest) = false ∧ (opensBracket (ks ++ rest) = true →
    ks = [.symbol .star] ∧ rest.head? = some (.symbol .rightBracket))

theorem Atom.opens (atom : Atom a) (rest : List TokenKind) : Opens a rest := by
  cases atom with
  | star =>
      refine ⟨rfl,fun opened => ⟨rfl,?_⟩⟩
      unfold opensBracket at opened
      split at opened
      · rename_i same; cases same
      · rename_i same; cases same
      · rename_i same; cases same; rfl
      · cases opened
  | call called => cases called <;> exact ⟨rfl,nofun⟩
  | hash selected => cases selected; exact ⟨rfl,nofun⟩
  | list selected => cases selected; exact ⟨rfl,nofun⟩
  | bracket piece => cases piece <;> exact ⟨rfl,nofun⟩
  | _ => exact ⟨rfl,nofun⟩

theorem Opens.continued (opens : Opens x (y ++ rest)) (continues : Continues y) :
    Opens (x ++ y) rest := by
  unfold Opens
  rw [List.append_assoc]
  refine ⟨opens.1,fun opened => ?_⟩
  obtain ⟨rfl,closed⟩ := opens.2 opened
  obtain ⟨rfl,closed⟩ := continues.open closed
  exact ⟨rfl,closed⟩

theorem Operand.opens (operand : Operand u) (rest : List TokenKind) : Opens u rest := by
  cases operand with
  | primary first more => exact (first.opens _).continued more.continues
  | _ => exact ⟨rfl,nofun⟩

theorem Expression.opens (derived : Expression e) (rest : List TokenKind) : Opens e rest := by
  cases derived with
  | operations first more => exact (first.opens _).continued more.continues

theorem Items.opens (items : Items es) (rest : List TokenKind) : Opens es rest := by
  cases items with
  | last item => exact item.opens rest
  | more item others =>
      unfold Opens
      rw [List.append_assoc]
      refine ⟨(item.opens _).1,fun opened => ?_⟩
      cases ((item.opens _).2 opened).2

-- What a power leaves of the operations is read by the operators around.
def Weak (power : Nat) (w : List TokenKind) : Prop :=
  ∀ op, operator? w = some op → op.power ≤ power

def Partly (power : Nat) (w rest : List TokenKind) (read : Expr → List TokenKind → Prop) : Prop :=
  ∃ e v, Operations v ∧ Weak power v ∧ v.length ≤ w.length ∧ read e (v ++ rest)

def Below (n : Nat) : Prop := ∀ u w power rest, Operand u → Operations w → (u ++ w).length < n →
  power ≤ 5 → Stops rest → Partly power w rest (Reads power (u ++ (w ++ rest)))

theorem power_positive (op : Operator) : 0 < op.power := by
  cases op <;> simp [Operator.power]

theorem Operations.exhausted (operations : Operations w) (weak : Weak 0 w) : w = [] := by
  rcases operations.continues with rfl | ⟨op,later,rfl⟩
  · rfl
  · have := weak op (Operator.ofKind?_some.mpr rfl)
    have := power_positive op
    omega

section
variable {n : Nat} (below : Below n)
include below

theorem Expression.reads (derived : Expression e) (short : e.length < n) (stops : Stops ks) :
    ∃ t, Reads 0 (e ++ ks) t ks := by
  cases derived with
  | operations first more =>
      obtain ⟨t,v,operations,weak,_,read⟩ := below _ _ 0 ks first more short (by omega) stops
      cases operations.exhausted weak
      rw [List.append_assoc]
      exact ⟨t,read⟩

theorem Items.reads (stops : ∀ ks, Stops (.symbol closing :: ks)) :
    Items es → es.length < n → ∃ ts, ReadsItems closing (es ++ .symbol closing :: ks) ts ks
  | .last item, short => by
      obtain ⟨t,read⟩ := item.reads below short (stops ks)
      exact ⟨[t],.last read⟩
  | .more item others, short => by
      simp only [List.length_append,List.length_cons] at short
      obtain ⟨ts,later⟩ := Items.reads stops others (by omega)
      obtain ⟨t,read⟩ := item.reads below (by omega) (closer_stops .comma (by decide) _)
      rw [List.append_assoc]
      exact ⟨t :: ts,.more read later⟩

theorem Members.reads :
    Members es → es.length < n → ∃ ts, ReadsEntries (es ++ .symbol .rightBrace :: ks) ts ks
  | .last named value, short => by
      simp only [List.length_cons] at short
      obtain ⟨t,read⟩ := value.reads below (by omega) (closer_stops .rightBrace (by decide) _)
      exact ⟨_,.last named read⟩
  | .more named value others, short => by
      simp only [List.length_append,List.length_cons] at short
      obtain ⟨ts,later⟩ := Members.reads others (by omega)
      obtain ⟨t,read⟩ := value.reads below (by omega) (closer_stops .comma (by decide) _)
      rw [List.cons_append,List.cons_append,List.append_assoc]
      exact ⟨_,.more named read later⟩

theorem Bindings.reads : Bindings v → v.length < n →
    ∃ bs, ReadsBindings (v ++ .identifier "in" :: ks) bs (.identifier "in" :: ks)
  | .last value, short => by
      simp only [List.length_cons] at short
      obtain ⟨t,read⟩ := value.reads below (by omega) (word_stops _)
      exact ⟨_,.last read (by simp)⟩
  | .more value others, short => by
      simp only [List.length_append,List.length_cons] at short
      obtain ⟨bs,later⟩ := Bindings.reads others (by omega)
      obtain ⟨t,read⟩ := value.reads below (by omega) (closer_stops .comma (by decide) _)
      rw [List.cons_append,List.cons_append,List.append_assoc]
      exact ⟨_,.more read later⟩

theorem Call.reads (called : Call c) (short : c.length ≤ n) :
    ∃ name y es, c = .identifier name :: .symbol .leftParen :: y ∧ ReadsArguments (y ++ ks) es ks := by
  cases called with
  | plain => exact ⟨_,_,[],rfl,.none⟩
  | given items =>
      simp only [List.length_append,List.length_cons] at short
      obtain ⟨ts,read⟩ := items.reads below (closer_stops .rightParen (by decide)) (by omega)
      refine ⟨_,_,ts,rfl,?_⟩
      rw [List.append_assoc]
      exact .some (items.opens _).1 read

theorem Listed.reads (selected : Listed l) (short : l.length ≤ n) :
    ∃ y ts, l = .symbol .leftBracket :: y ∧ ReadsItems .rightBracket (y ++ ks) ts ks ∧
      (opensBracket (y ++ ks) = true → y = [.symbol .star,.symbol .rightBracket]) := by
  cases selected with
  | items items =>
      simp only [List.length_append,List.length_cons] at short
      obtain ⟨ts,read⟩ := items.reads below (closer_stops .rightBracket (by decide)) (by omega)
      refine ⟨_,ts,rfl,?_⟩
      rw [List.append_assoc]
      exact ⟨read,fun opened => by rw [((items.opens _).2 opened).1]; rfl⟩

theorem Hash.reads (selected : Hash h) (short : h.length ≤ n) :
    ∃ y ts, h = .symbol .leftBrace :: y ∧ ReadsEntries (y ++ ks) ts ks := by
  cases selected with
  | members members =>
      simp only [List.length_append,List.length_cons] at short
      obtain ⟨ts,read⟩ := members.reads below (by omega)
      refine ⟨_,ts,rfl,?_⟩
      rw [List.append_assoc]
      exact read

-- Behind an operand a bracket joins it, elsewhere it stands on the current value.
theorem Bracket.reads (piece : Bracket b) (short : b.length ≤ n) :
    ∃ op y, b = .symbol (Operator.symbol op) :: y ∧ 5 < op.power ∧
      (∀ left, ∃ e, ReadsContinued left op (y ++ ks) e ks) ∧
      ∃ e, ReadsOperand (.symbol op.symbol) (y ++ ks) e ks := by
  have opened : ∀ {y f}, ReadsBracket (y ++ ks) f ks → ∃ op z,
      TokenKind.symbol .leftBracket :: y = .symbol (Operator.symbol op) :: z ∧ 5 < op.power ∧
      (∀ left, ∃ e, ReadsContinued left op (z ++ ks) e ks) ∧
      ∃ e, ReadsOperand (.symbol op.symbol) (z ++ ks) e ks := fun {y f} read =>
    ⟨.bracket,y,rfl,by decide,fun left => ⟨_,.bracket read⟩,_,.bracket read⟩
  cases piece with
  | index => exact opened .index
  | slice => exact opened (by simpa using ReadsBracket.slice)
  | stepped => exact opened (by simpa using ReadsBracket.stepped)
  | wildcard => exact opened .wildcard
  | flatten => exact ⟨.flatten,[],rfl,by decide,fun left => ⟨_,.flatten⟩,_,.flatten⟩
  | @filter e condition =>
      simp only [List.length_append,List.length_cons] at short
      obtain ⟨t,read⟩ := condition.reads below (by omega) (closer_stops .rightBracket (by decide) ks)
      replace read : Reads 0 (e ++ [.symbol .rightBracket] ++ ks) t (.symbol .rightBracket :: ks) := by
        rwa [List.append_assoc]
      exact ⟨.filter,_,rfl,by decide,fun left => ⟨_,.filter read⟩,_,.filter read⟩

theorem Access.reads (access : Access x) (short : x.length ≤ n) (follows : Follows ks) :
    ∃ op y, x = .symbol (Operator.symbol op) :: y ∧ 5 < op.power ∧
      ∀ left, ∃ e, ReadsContinued left op (y ++ ks) e ks := by
  have selected : ∀ {y f}, ReadsSelected (y ++ ks) f ks → ∃ op z,
      TokenKind.symbol .dot :: y = .symbol (Operator.symbol op) :: z ∧ 5 < op.power ∧
      ∀ left, ∃ e, ReadsContinued left op (z ++ ks) e ks := fun {y f} read =>
    ⟨.dot,y,rfl,by decide,fun left => ⟨_,.dot read⟩⟩
  cases access with
  | identifier => exact selected (.field follows.call)
  | quoted => exact selected (.quoted follows.call)
  | call called =>
      obtain ⟨name,y,es,rfl,read⟩ := called.reads below (Nat.le_of_succ_le short)
      exact selected (.call read)
  | star => exact selected .values
  | list listed =>
      obtain ⟨y,ts,rfl,read,_⟩ := listed.reads below (Nat.le_of_succ_le short)
      exact selected (.list read)
  | hash hashed =>
      obtain ⟨y,ts,rfl,read⟩ := hashed.reads below (Nat.le_of_succ_le short)
      exact selected (.hash read)
  | bracket piece =>
      obtain ⟨op,y,rfl,strong,read,_⟩ := piece.reads below short
      exact ⟨op,y,rfl,strong,read⟩

theorem Atom.reads (atom : Atom a) (short : a.length ≤ n) (follows : Follows ks) :
    ∃ k y e, a = k :: y ∧ ReadsOperand k (y ++ ks) e ks := by
  cases atom with
  | identifier => exact ⟨_,[],_,rfl,.field follows.call fun _ => follows.binding⟩
  | quoted => exact ⟨_,[],_,rfl,.quoted follows.call⟩
  | rawString => exact ⟨_,[],_,rfl,.rawString⟩
  | literal => exact ⟨_,[],_,rfl,.literal⟩
  | current => exact ⟨_,[],_,rfl,.current⟩
  | root => exact ⟨_,[],_,rfl,.root⟩
  | «variable» => exact ⟨_,[],_,rfl,.variable⟩
  | star => exact ⟨_,[],_,rfl,.values⟩
  | call called =>
      obtain ⟨name,y,es,rfl,read⟩ := called.reads below short
      exact ⟨_,_,_,rfl,.call read⟩
  | group inner =>
      simp only [List.length_append,List.length_cons] at short
      obtain ⟨t,read⟩ := inner.reads below (by omega) (closer_stops .rightParen (by decide) ks)
      refine ⟨_,_,t,rfl,.group ?_⟩
      rw [List.append_assoc]
      exact read
  | hash hashed =>
      obtain ⟨y,ts,rfl,read⟩ := hashed.reads below short
      exact ⟨_,_,_,rfl,.hash read⟩
  | list listed =>
      obtain ⟨y,ts,rfl,read,star⟩ := listed.reads below short
      cases opened : opensBracket (y ++ ks) with
      | false => exact ⟨_,_,_,rfl,.list opened read⟩
      | true =>
          cases star opened
          exact ⟨_,_,_,rfl,.bracket .wildcard⟩
  | bracket piece =>
      obtain ⟨op,y,rfl,_,_,e,read⟩ := piece.reads below short
      exact ⟨_,y,e,rfl,read⟩

-- The loop takes the operations that bind strongly enough; the right side of each has taken
-- some of them before.
theorem Operations.reads (stops : Stops rest) (more : Nat) (left : Expr)
    (operations : Operations w) (short : w.length ≤ n) (fits : w.length ≤ more) :
    Partly power w rest (ReadsOperators power left (w ++ rest)) := by
  induction more generalizing w left with
  | zero =>
      cases List.length_eq_zero_iff.mp (Nat.le_zero.mp fits)
      exact ⟨left,[],.none,nofun,Nat.le_refl _,.done (by simp [stops.operator])⟩
  | succ more ih =>
      cases operations with
      | none => exact ⟨left,[],.none,nofun,Nat.le_refl _,.done (by simp [stops.operator])⟩
      | @some b u w binary right others =>
          obtain ⟨op,rfl⟩ := binary_operator binary
          have found : Operator.ofKind? (.symbol op.symbol) = Option.some op :=
            Operator.ofKind?_some.mpr rfl
          by_cases strong : power < op.power
          · simp only [List.length_append,List.length_cons] at short fits
            obtain ⟨t,v,later,weak,less,read⟩ := below u w op.power rest right others
              (by simp only [List.length_append]; omega) ((binary_power op).mp binary) stops
            have first : ∃ e, ReadsContinued left op (u ++ (w ++ rest)) e (v ++ rest) := by
              cases op with
              | pipe => exact ⟨_,.pipe read⟩
              | or => exact ⟨_,.or read⟩
              | and => exact ⟨_,.and read⟩
              | compare => exact ⟨_,.compare read⟩
              | _ => exact absurd ((binary_power _).mp binary) (by decide)
            obtain ⟨e,first⟩ := first
            obtain ⟨t,v',last,weak,less',loop⟩ := ih e later (by omega) (by omega)
            refine ⟨t,v',last,weak,?_,?_⟩
            · simp only [List.length_append,List.length_cons]
              omega
            · rw [List.cons_append,List.append_assoc]
              exact .more found strong first loop
          · refine ⟨left,_,.some binary right others,?_,Nat.le_refl _,.done ?_⟩
            · intro other same
              cases Option.some.inj (found.symm.trans same)
              omega
            · intro other same
              cases Option.some.inj (found.symm.trans same)
              omega

theorem Accesses.reads (bounded : power ≤ 5) (stops : Stops rest) (operations : Operations w)
    (left : Expr) (fits : w.length ≤ n) : Accesses x → x.length ≤ n →
      Partly power w rest (ReadsOperators power left (x ++ (w ++ rest)))
  | .none, _ => operations.reads below stops w.length left fits (Nat.le_refl _)
  | .some first more, short => by
      simp only [List.length_append] at short
      have follows := more.continues.follows (operations.continues.follows stops.toFollows)
      obtain ⟨op,y,rfl,strong,continued⟩ := first.reads below (by omega) follows
      obtain ⟨next,taken⟩ := continued left
      obtain ⟨t,v,last,weak,less,loop⟩ := Accesses.reads bounded stops operations next fits more (by omega)
      refine ⟨t,v,last,weak,less,?_⟩
      rw [List.append_assoc]
      exact .more (Operator.ofKind?_some.mpr rfl) (by omega) taken loop

theorem Operand.reads (operand : Operand u) (operations : Operations w)
    (short : (u ++ w).length ≤ n) (bounded : power ≤ 5) (stops : Stops rest) :
    Partly power w rest (Reads power (u ++ (w ++ rest))) := by
  cases operand with
  | not inner =>
      obtain ⟨t,v,later,_,less,read⟩ := below _ _ Operator.notPower rest inner operations short
        (by decide) stops
      obtain ⟨e,v',last,weak,less',loop⟩ := later.reads below stops _ (.not t)
        (by simp only [List.length_append] at short; omega) (Nat.le_refl _)
      exact ⟨e,v',last,weak,Nat.le_trans less' less,.expression (.not read) loop⟩
  | reference inner =>
      obtain ⟨t,v,later,weak,less,read⟩ := below _ _ 0 rest inner operations short (by omega) stops
      cases later.exhausted weak
      exact ⟨_,[],.none,nofun,Nat.zero_le _,.expression (.reference read) (.done (by simp [stops.operator]))⟩
  | letIn names inner =>
      simp only [List.length_append,List.length_cons] at short
      obtain ⟨bs,bound⟩ := names.reads below (by omega)
      obtain ⟨t,v,later,weak,less,read⟩ := below _ _ 0 rest inner operations
        (by simp only [List.length_append]; omega) (by omega) stops
      cases later.exhausted weak
      refine ⟨.letIn bs t,[],.none,nofun,Nat.zero_le _,?_⟩
      rw [List.cons_append,List.append_assoc]
      exact .expression (.letIn bound read) (.done (by simp [stops.operator]))
  | primary first more =>
      simp only [List.length_append] at short
      have follows := more.continues.follows (operations.continues.follows stops.toFollows)
      obtain ⟨k,y,e,rfl,read⟩ := first.reads below (by omega) follows
      obtain ⟨t,v,last,weak,less,loop⟩ := Accesses.reads below bounded stops operations e (by omega)
        more (by omega)
      refine ⟨t,v,last,weak,less,?_⟩
      rw [List.append_assoc]
      exact .expression read loop

end

theorem below_all (n : Nat) : Below n := by
  induction n with
  | zero =>
      intro u w power rest operand operations short
      omega
  | succ n ih =>
      intro u w power rest operand operations short bounded stops
      exact operand.reads ih operations (by omega) bounded stops

theorem Expression.whole (derived : Expression ks) : ∃ tree, Reads 0 ks tree [] := by
  have stops : Stops [] := ⟨⟨rfl,rfl⟩,rfl⟩
  obtain ⟨tree,reads⟩ := derived.reads (below_all _) (Nat.lt_succ_self _) stops
  rw [List.append_nil] at reads
  exact ⟨tree,reads⟩

end JsonQuery.Grammar
