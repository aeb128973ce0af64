import JsonQuery.Proofs.Expr.Reads

namespace JsonQuery

def ParseError.movedTo (p : Position) : ParseError → ParseError
  | .lex e => .lex ⟨e.fault,p⟩
  | .unexpected found expected _ => .unexpected found expected p
  | .invalid fault _ => .invalid fault p

namespace Parser

-- Two runs succeed with related results, or fail with related faults.
inductive Alike (E : ParseError → ParseError → Prop) (R : α → β → Prop) :
    Except ParseError α → Except ParseError β → Prop where
  | ok (related : R a b) : Alike E R (.ok a) (.ok b)
  | error (faults : E e e') : Alike E R (.error e) (.error e')

theorem Alike.bind {E : ParseError → ParseError → Prop} {R : α → β → Prop} {S : γ → δ → Prop}
    (first : Alike E R x y) (next : ∀ a b, R a b → Alike E S (f a) (g b)) :
    Alike E S (x >>= f) (y >>= g) := by
  cases first with
  | ok related => exact next _ _ related
  | error faults => exact .error faults

-- Related values in front of related streams.
def Ahead (V : α → β → Prop) (Q : TokenStream → TokenStream → Prop) (a : Parsed α) (b : Parsed β) :
    Prop := V a.1 b.1 ∧ Q a.2 b.2

theorem Alike.made {E : ParseError → ParseError → Prop} {Q : TokenStream → TokenStream → Prop}
    {x y : Except ParseError (Parsed α)} (first : Alike E (Ahead Eq Q) x y) (make : α → β) :
    Alike E (Ahead Eq Q) (x >>= fun pair => pure (make pair.1,pair.2))
      (y >>= fun pair => pure (make pair.1,pair.2)) :=
  first.bind fun _ _ both => .ok ⟨congrArg make both.1,both.2⟩

-- The streams show related tokens of the same kinds, one after the other, to whoever looks at
-- them, and what is said against a token is related to what is said against the other.
structure View (N : Token → Token → Prop) (E : ParseError → ParseError → Prop)
    (Q : TokenStream → TokenStream → Prop) : Prop where
  here : Q s s' → Alike E N (here s) (here s')
  tail : Q s s' → Q s.tail s'.tail
  size : Q s s' → s.tokens.length = s'.tokens.length
  kind : N t t' → t.kind = t'.kind
  refused : N t t' → ∀ expected,
    E (.unexpected t.kind expected t.position) (.unexpected t'.kind expected t'.position)
  misplaced : N t t' → ∀ fault, E (.invalid fault t.position) (.invalid fault t'.position)

-- Nothing a parser does tells two such streams apart.
def Uniform (E : ParseError → ParseError → Prop) (V : α → α → Prop)
    (Q : TokenStream → TokenStream → Prop) (parse : TokenStream → Except ParseError (Parsed α)) : Prop :=
  ∀ {s s'}, Q s s' → Alike E (Ahead V Q) (parse s) (parse s')

theorem isAt_here (s : TokenStream) (kind : TokenKind) :
    isAt s kind = match here s with | .ok t => t.kind == kind | .error _ => false := by
  unfold isAt here
  cases s.current <;> rfl

theorem atVariable_here (s : TokenStream) :
    atVariable s = match here s with | .ok t => opensBinding [t.kind] | .error _ => false := by
  unfold atVariable here
  cases s.current with
  | error => rfl
  | ok t => rcases t with ⟨kind,_,_⟩; cases kind <;> rfl

section
variable {N : Token → Token → Prop} {E : ParseError → ParseError → Prop}
  {Q : TokenStream → TokenStream → Prop} (view : View N E Q)
include view

theorem unexpected_alike {R : α → β → Prop} (named : N t t') (expected : Expected) :
    Alike E R (unexpected t expected) (unexpected t' expected) := .error (view.refused named expected)

theorem advance_uniform : Uniform E N Q advance := fun related =>
  (view.here related).bind fun _ _ named => (view.here (view.tail related)).bind fun _ _ _ =>
    .ok ⟨named,view.tail related⟩

theorem isAt_uniform (related : Q s s') (kind : TokenKind) : isAt s kind = isAt s' kind := by
  have alike := view.here related
  rw [isAt_here,isAt_here]
  generalize here s = x at alike ⊢
  generalize here s' = y at alike ⊢
  cases alike with
  | ok named => dsimp only; rw [view.kind named]
  | error => rfl

theorem atVariable_uniform (related : Q s s') : atVariable s = atVariable s' := by
  have alike := view.here related
  rw [atVariable_here,atVariable_here]
  generalize here s = x at alike ⊢
  generalize here s' = y at alike ⊢
  cases alike with
  | ok named => dsimp only; rw [view.kind named]
  | error => rfl

theorem expect_uniform (symbol : Symbol) : Uniform E N Q (expect symbol) := by
  intro s s' related
  refine (view.here related).bind fun t t' named => ?_
  rw [view.kind named]
  split
  · exact advance_uniform view related
  · exact unexpected_alike view named _

section
variable {sub : SubParser} (deeper : ∀ power, Uniform E Eq Q (sub power))
include deeper

theorem items_uniform (closing : Symbol) (expected : Expected) (more : Nat) :
    Uniform E Eq Q (items sub closing expected more) := by
  induction more using Nat.strongRecOn with
  | ind more ih =>
      intro s s' related
      rw [items.eq_def,items.eq_def]
      refine (deeper 0 related).bind ?_
      rintro ⟨e,s⟩ ⟨_,s'⟩ ⟨rfl,related⟩
      refine (advance_uniform view related).bind ?_
      rintro ⟨t,s⟩ ⟨t',s'⟩ ⟨named,related⟩
      dsimp only at named ⊢
      rw [view.kind named]
      split
      · cases more with
        | zero => exact (view.here related).bind fun _ _ named => unexpected_alike view named _
        | succ more =>
            exact (ih more (Nat.lt_succ_self _) related).made (_ :: ·)
      · split
        · exact .ok ⟨rfl,related⟩
        · exact unexpected_alike view named _

theorem list_uniform : Uniform E Eq Q (list sub) := by
  intro s s' related
  unfold list
  rw [view.size related]
  exact (items_uniform view deeper _ _ _ related).made Expr.list

theorem entry_uniform : Uniform E Eq Q (entry sub) := by
  intro s s' related
  refine (advance_uniform view related).bind ?_
  rintro ⟨⟨kind,text,p⟩,s⟩ ⟨⟨kind',text',p'⟩,s'⟩ ⟨named,related⟩
  obtain rfl : kind = kind' := view.kind named
  dsimp only at related ⊢
  have value (key : String) : Alike E (Ahead Eq Q)
      (expect .colon s >>= fun pair => sub 0 pair.2 >>= fun pair => pure ((key,pair.1),pair.2))
      (expect .colon s' >>= fun pair => sub 0 pair.2 >>= fun pair => pure ((key,pair.1),pair.2)) :=
    (expect_uniform view .colon related).bind fun _ _ both => (deeper 0 both.2).made (key,·)
  split
  · exact value _
  · exact value _
  · exact .error (view.refused named _)

theorem entries_uniform (more : Nat) : Uniform E Eq Q (entries sub more) := by
  induction more using Nat.strongRecOn with
  | ind more ih =>
      intro s s' related
      rw [entries.eq_def,entries.eq_def]
      refine (entry_uniform view deeper related).bind ?_
      rintro ⟨first,s⟩ ⟨_,s'⟩ ⟨rfl,related⟩
      refine (advance_uniform view related).bind ?_
      rintro ⟨t,s⟩ ⟨t',s'⟩ ⟨named,related⟩
      dsimp only at named ⊢
      rw [view.kind named]
      split
      · cases more with
        | zero => exact (view.here related).bind fun _ _ named => unexpected_alike view named _
        | succ more =>
            exact (ih more (Nat.lt_succ_self _) related).made (_ :: ·)
      · split
        · exact .ok ⟨rfl,related⟩
        · exact unexpected_alike view named _

theorem hash_uniform : Uniform E Eq Q (hash sub) := by
  intro s s' related
  unfold hash
  rw [view.size related]
  exact (entries_uniform view deeper _ related).made Expr.hash

theorem call_uniform (name : String) : Uniform E Eq Q (call sub name) := by
  intro s s' related
  refine (expect_uniform view .leftParen related).bind ?_
  rintro ⟨t,s⟩ ⟨t',s'⟩ ⟨-,related⟩
  dsimp only at related ⊢
  rw [isAt_uniform view related,view.size related]
  split
  · exact (advance_uniform view related).bind fun _ _ both => .ok ⟨rfl,both.2⟩
  · exact (items_uniform view deeper _ _ _ related).made (Expr.call name)

theorem fieldOrCall_uniform (name : String) : Uniform E Eq Q (fieldOrCall sub name) := by
  intro s s' related
  unfold fieldOrCall
  rw [isAt_uniform view related]
  split
  · exact call_uniform view deeper name related
  · exact .ok ⟨rfl,related⟩

omit deeper in
theorem quotedField_uniform (name : String)
    (faults : E (.invalid .quotedFunctionName p) (.invalid .quotedFunctionName p')) (related : Q s s') :
    Alike E (Ahead Eq Q) (quotedField name p s) (quotedField name p' s') := by
  unfold quotedField
  rw [isAt_uniform view related]
  split
  · exact .error faults
  · exact .ok ⟨rfl,related⟩

theorem binding_uniform : Uniform E Eq Q (binding sub) := by
  intro s s' related
  refine (advance_uniform view related).bind ?_
  rintro ⟨⟨kind,text,p⟩,s⟩ ⟨⟨kind',text',p'⟩,s'⟩ ⟨named,related⟩
  obtain rfl : kind = kind' := view.kind named
  dsimp only at related ⊢
  split
  · exact (expect_uniform view .assign related).bind fun _ _ both => (deeper 0 both.2).made (_,·)
  · exact .error (view.refused named _)

theorem bindings_uniform (more : Nat) : Uniform E Eq Q (bindings sub more) := by
  induction more using Nat.strongRecOn with
  | ind more ih =>
      intro s s' related
      rw [bindings.eq_def,bindings.eq_def]
      refine (binding_uniform view deeper related).bind ?_
      rintro ⟨first,s⟩ ⟨_,s'⟩ ⟨rfl,related⟩
      dsimp only at related ⊢
      rw [isAt_uniform view related]
      split
      · refine (advance_uniform view related).bind ?_
        rintro ⟨t,s⟩ ⟨t',s'⟩ ⟨-,related⟩
        cases more with
        | zero => exact (view.here related).bind fun _ _ named => unexpected_alike view named _
        | succ more =>
            exact (ih more (Nat.lt_succ_self _) related).made (_ :: ·)
      · exact .ok ⟨rfl,related⟩

theorem letIn_uniform : Uniform E Eq Q (letIn sub) := by
  intro s s' related
  unfold letIn
  rw [view.size related]
  refine (bindings_uniform view deeper _ related).bind ?_
  rintro ⟨bs,s⟩ ⟨_,s'⟩ ⟨rfl,related⟩
  refine (view.here related).bind fun t t' named => ?_
  rw [view.kind named]
  split
  · exact (advance_uniform view related).bind fun _ _ both => (deeper 0 both.2).made (Expr.letIn bs)
  · exact unexpected_alike view named _

theorem condition_uniform : Uniform E Eq Q (condition sub) := fun related =>
  (deeper 0 related).bind fun _ _ first => (expect_uniform view .rightBracket first.2).bind fun _ _ both =>
    .ok ⟨congrArg Fragment.filter first.1,both.2⟩

end

theorem slicePart_uniform :
    Uniform E (fun a b : Option Int × Token => a.1 = b.1 ∧ N a.2 b.2) Q slicePart := by
  intro s s' related
  refine (advance_uniform view related).bind ?_
  rintro ⟨⟨kind,text,p⟩,s⟩ ⟨⟨kind',text',p'⟩,s'⟩ ⟨named,related⟩
  obtain rfl : kind = kind' := view.kind named
  dsimp only at related ⊢
  split
  · exact (advance_uniform view related).bind fun _ _ both => .ok ⟨⟨rfl,both.1⟩,both.2⟩
  · exact .ok ⟨⟨rfl,named⟩,related⟩

theorem sliceFrom_uniform (start : Option Int) : Uniform E Eq Q (sliceFrom start) := by
  intro s s' related
  refine (slicePart_uniform view related).bind ?_
  rintro ⟨⟨stop,⟨kind,_,_⟩⟩,s⟩ ⟨⟨_,⟨kind',_,_⟩⟩,s'⟩ ⟨⟨⟨⟩,named⟩,related⟩
  obtain rfl : kind = kind' := view.kind named
  dsimp only at related ⊢
  split
  · exact .ok ⟨rfl,related⟩
  · refine (slicePart_uniform view related).bind ?_
    rintro ⟨⟨step,⟨kind,_,_⟩⟩,s⟩ ⟨⟨_,⟨kind',_,_⟩⟩,s'⟩ ⟨⟨⟨⟩,named⟩,related⟩
    obtain rfl : kind = kind' := view.kind named
    dsimp only at related ⊢
    split
    · exact .ok ⟨rfl,related⟩
    · exact .error (view.misplaced named .thirdColon)
    · exact .error (view.refused named _)
  · exact .error (view.refused named _)

theorem indexOrSlice_uniform (n : Int) : Uniform E Eq Q (indexOrSlice n) := by
  intro s s' related
  refine (advance_uniform view related).bind ?_
  rintro ⟨⟨kind,text,p⟩,s⟩ ⟨⟨kind',text',p'⟩,s'⟩ ⟨named,related⟩
  obtain rfl : kind = kind' := view.kind named
  dsimp only at related ⊢
  split
  · exact .ok ⟨rfl,related⟩
  · exact sliceFrom_uniform view _ related
  · exact .error (view.refused named _)

theorem bracket_uniform (related : Q s s') :
    Alike E (Option.Rel (Ahead Eq Q)) (bracket? s) (bracket? s') := by
  refine (view.here related).bind ?_
  rintro ⟨kind,text,p⟩ ⟨kind',text',p'⟩ named
  obtain rfl : kind = kind' := view.kind named
  dsimp only
  split
  · exact (advance_uniform view related).bind fun _ _ both =>
      (indexOrSlice_uniform view _ both.2).bind fun _ _ both => .ok (.some both)
  · exact (advance_uniform view related).bind fun _ _ both =>
      (sliceFrom_uniform view none both.2).bind fun _ _ both => .ok (.some both)
  · refine (view.here (view.tail related)).bind fun t t' named => ?_
    rw [view.kind named]
    split
    · exact (advance_uniform view related).bind fun _ _ both =>
        (advance_uniform view both.2).bind fun _ _ both => .ok (.some ⟨rfl,both.2⟩)
    · exact .ok .none
  · exact .ok .none

section
variable {sub : SubParser} (deeper : ∀ power, Uniform E Eq Q (sub power))
include deeper

theorem afterDot_uniform : Uniform E Eq Q (afterDot sub) := by
  intro s s' related
  refine (advance_uniform view related).bind ?_
  rintro ⟨⟨kind,text,p⟩,s⟩ ⟨⟨kind',text',p'⟩,s'⟩ ⟨named,related⟩
  obtain rfl : kind = kind' := view.kind named
  dsimp only at related ⊢
  split
  · exact (fieldOrCall_uniform view deeper _ related).made Fragment.select
  · exact (quotedField_uniform view _ (view.misplaced named _) related).made Fragment.select
  · exact .ok ⟨rfl,related⟩
  · exact (list_uniform view deeper related).made Fragment.select
  · exact (hash_uniform view deeper related).made Fragment.select
  · exact .error (view.refused named _)

theorem operand_uniform (named : N t t') (related : Q s s') :
    Alike E (Ahead Eq Q) (operand sub t s) (operand sub t' s') := by
  rcases t with ⟨kind,text,p⟩
  rcases t' with ⟨kind',text',p'⟩
  obtain rfl : kind = kind' := view.kind named
  unfold operand
  dsimp only
  split
  · rw [atVariable_uniform view related]
    split
    · exact letIn_uniform view deeper related
    · exact fieldOrCall_uniform view deeper _ related
  · exact quotedField_uniform view _ (view.misplaced named _) related
  · exact .ok ⟨rfl,related⟩
  · exact .ok ⟨rfl,related⟩
  · exact .ok ⟨rfl,related⟩
  · exact .ok ⟨rfl,related⟩
  · exact .ok ⟨rfl,related⟩
  · exact .ok ⟨rfl,related⟩
  · exact (deeper _ related).made Expr.not
  · exact (deeper _ related).made Expr.reference
  · refine (deeper _ related).bind fun _ _ first => ?_
    exact (expect_uniform view .rightParen first.2).bind fun _ _ both => .ok ⟨first.1,both.2⟩
  · exact hash_uniform view deeper related
  · refine (bracket_uniform view related).bind fun _ _ found => ?_
    cases found with
    | none => exact list_uniform view deeper related
    | some both => exact .ok ⟨congrArg Expr.current.apply both.1,both.2⟩
  · exact .ok ⟨rfl,related⟩
  · exact (condition_uniform view deeper related).made Expr.current.apply
  · exact .error (view.refused named _)

theorem continued_uniform (left : Expr) (op : Operator)
    (faults : E (.invalid .bareList p) (.invalid .bareList p')) (related : Q s s') :
    Alike E (Ahead Eq Q) (continued sub left op p s) (continued sub left op p' s') := by
  cases op with
  | pipe => exact (deeper _ related).made left.pipe
  | or => exact (deeper _ related).made left.or
  | and => exact (deeper _ related).made left.and
  | compare comparison => exact (deeper _ related).made (Expr.compare comparison left)
  | flatten => exact .ok ⟨rfl,related⟩
  | bracket =>
      refine (bracket_uniform view related).bind fun _ _ found => ?_
      cases found with
      | none => exact .error faults
      | some both => exact .ok ⟨congrArg left.attach both.1,both.2⟩
  | filter => exact (condition_uniform view deeper related).made left.attach
  | dot => exact (afterDot_uniform view deeper related).made left.attach

theorem operators_uniform (power more : Nat) (left : Expr) :
    Uniform E Eq Q (operators sub power more left) := by
  induction more generalizing left with
  | zero => exact fun related => .ok ⟨rfl,related⟩
  | succ more ih =>
      intro s s' related
      refine (view.here related).bind ?_
      rintro ⟨kind,text,p⟩ ⟨kind',text',p'⟩ named
      obtain rfl : kind = kind' := view.kind named
      dsimp only
      split
      · split
        · refine (advance_uniform view related).bind fun _ _ both => ?_
          refine (continued_uniform view deeper left _ (view.misplaced named _) both.2).bind ?_
          rintro ⟨next,s⟩ ⟨_,s'⟩ ⟨rfl,related⟩
          exact ih _ related
        · exact .ok ⟨rfl,related⟩
      · exact .ok ⟨rfl,related⟩

end

theorem expression_uniform (depth power : Nat) : Uniform E Eq Q (expression depth power) := by
  induction depth generalizing power with
  | zero => exact fun related => (view.here related).bind fun _ _ named => unexpected_alike view named _
  | succ depth ih =>
      intro s s' related
      refine (advance_uniform view related).bind ?_
      rintro ⟨t,s⟩ ⟨t',s'⟩ ⟨named,related⟩
      refine (operand_uniform view ih named related).bind ?_
      rintro ⟨left,s⟩ ⟨_,s'⟩ ⟨rfl,related⟩
      dsimp only at related ⊢
      rw [view.size related]
      exact operators_uniform view ih _ _ _ related

theorem stream_uniform (related : Q s s') : Alike E Eq (stream s) (stream s') := by
  unfold stream
  rw [view.size related]
  refine (expression_uniform view _ _ related).bind fun _ _ both => ?_
  refine (view.here both.2).bind ?_
  rintro ⟨kind,text,p⟩ ⟨kind',text',p'⟩ named
  obtain rfl : kind = kind' := view.kind named
  dsimp only
  split
  · exact .ok both.1
  · exact .error (view.refused named _)

end

-- A parser goes forward only: what it leaves is the end of what it was given.
def Remains (s s' : TokenStream) (given : List Token) : Prop := s = s' ∧ s.tokens <:+ given

theorem remains_view (given : List Token) : View Eq Eq (Remains · · given) where
  here := by
    rintro s _ ⟨rfl,_⟩
    cases here s with
    | ok t => exact .ok rfl
    | error e => exact .error rfl
  tail := by
    rintro s _ ⟨rfl,ends⟩
    exact ⟨rfl,(List.tail_suffix _).trans ends⟩
  size := by
    rintro s _ ⟨rfl,_⟩
    rfl
  kind same := congrArg Token.kind same
  refused same _ := same ▸ rfl
  misplaced same _ := same ▸ rfl

theorem Uniform.remains {parse : TokenStream → Except ParseError (Parsed α)} {V : α → α → Prop}
    (uniform : Uniform Eq V (Remains · · ts) parse) (parsed : parse ⟨ts,close⟩ = .ok (a,⟨later,close⟩)) :
    later <:+ ts := by
  have alike := uniform (s := ⟨ts,close⟩) ⟨rfl,List.suffix_rfl⟩
  rw [parsed] at alike
  cases alike with
  | ok related => exact related.2.2

def Named (t t' : Token) : Prop := t.kind = t'.kind

-- The same fault, told of another place.
def Moved (e e' : ParseError) : Prop := e.movedTo e'.position = e'

-- The same kinds up to the ending, wherever they stand and however they are written.
structure SameKinds (s s' : TokenStream) : Prop where
  tokens : s.tokens.map (·.kind) = s'.tokens.map (·.kind)
  ending : Alike Moved Named (here ⟨[],s.ending⟩) (here ⟨[],s'.ending⟩)

theorem sameKinds_view : View Named Moved SameKinds where
  here := by
    rintro ⟨ts,close⟩ ⟨ts',close'⟩ ⟨tokens,ending⟩
    cases ts with
    | nil => cases List.map_eq_nil_iff.mp tokens.symm; exact ending
    | cons t later =>
        obtain ⟨t',later',rfl,named,_⟩ := List.map_eq_cons_iff.mp tokens.symm
        exact .ok named.symm
  tail := by
    rintro ⟨ts,close⟩ ⟨ts',close'⟩ ⟨tokens,ending⟩
    exact ⟨by simpa [TokenStream.tail] using congrArg List.tail tokens,ending⟩
  size := by
    rintro s s' ⟨tokens,_⟩
    simpa using congrArg List.length tokens
  kind named := named
  refused named expected := congrArg (ParseError.unexpected · expected _) named
  misplaced _ _ := rfl

end Parser
end JsonQuery
