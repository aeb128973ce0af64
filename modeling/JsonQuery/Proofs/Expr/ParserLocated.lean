import JsonQuery.Proofs.Expr.Located

namespace JsonQuery.Parser

open Grammar

-- What is asked of a reader that others are made of: it reads what it says and in one way, it
-- goes forward only, and it finds faults where they are.
structure Trusted (close : Except LexError Token) (limit : Nat)
    (R : List TokenKind → α → List TokenKind → Prop) (phrase : List TokenKind → Prop)
    (parse : TokenStream → Except ParseError (Parsed α)) : Prop where
  sound : Sound close R parse
  forward : ∀ given, Uniform Eq Eq (Remains · · given) parse
  near : R ks a rest → Local (R · a ·) ks rest
  unique : Unique R
  derived : R (y ++ rest) a rest → phrase y
  located : ts.length ≤ limit → parse ⟨ts,close⟩ = .error (.unexpected found expected position) →
    Located (Starts R) phrase (TokenStream.mk ts close).all found position

section
variable {close : Except LexError Token} {limit : Nat} {R : List TokenKind → α → List TokenKind → Prop}
  {phrase : List TokenKind → Prop} {parse : TokenStream → Except ParseError (Parsed α)}
  (trusted : Trusted close limit R phrase parse)
include trusted

-- Either the fault is its own, or it has taken its tokens and the fault is behind them.
theorem Trusted.raised {f : Parsed α → Except ParseError β} (fits : ts.length ≤ limit)
    (raised : (parse ⟨ts,close⟩ >>= f) = .error (.unexpected found expected position)) :
    Located (Starts R) phrase (TokenStream.mk ts close).all found position ∨
      ∃ a taken later, ts = taken ++ later ∧ phrase (kinds taken) ∧
        R (kinds taken ++ kinds later) a (kinds later) ∧
        f (a,⟨later,close⟩) = .error (.unexpected found expected position) := by
  rcases bind_error.mp raised with inside | ⟨⟨a,s⟩,parsed,behind⟩
  · exact .inl (trusted.located fits inside)
  · obtain ⟨taken,later,rfl,rfl,read⟩ := trusted.sound.taken (trusted.forward _) parsed
    exact .inr ⟨a,taken,later,rfl,trusted.derived read,read,behind⟩

theorem Trusted.settled (read : R (y ++ rest) a rest) (same : ahead rest' = ahead rest)
    (other : R (y ++ rest') b middle) : a = b ∧ rest' = middle :=
  (trusted.near read).settled trusted.unique same other

theorem Trusted.next (read : R (y ++ rest) a rest) (same : ahead rest = k)
    (other : R (y ++ k :: ks) b (k' :: middle)) : k = k' ∧ ks = middle :=
  (trusted.near read).next trusted.unique same other

end

theorem derived_taken {P : List TokenKind → Prop} (derived : ∃ z, y ++ rest = z ++ rest ∧ P z) : P y := by
  obtain ⟨z,split,holds⟩ := derived
  exact List.append_cancel_right split ▸ holds

-- Elements with commas between them up to a closing symbol, whatever the elements are.
def separated (first : TokenStream → Except ParseError (Parsed α)) (closing : Symbol)
    (another ended : Expected) : Nat → TokenStream → Except ParseError (Parsed (List α))
  | more,s => do
    let (a,s) ← first s
    let (token,s) ← advance s
    if token.kind = .symbol .comma then
      match more with
      | 0 => unexpected (← here s) another
      | more + 1 =>
        let (others,s) ← separated first closing another ended more s
        return (a :: others,s)
    else if token.kind = .symbol closing then return ([a],s)
    else unexpected token ended

theorem items_separated (sub : SubParser) (closing : Symbol) (ended : Expected) (more : Nat)
    (s : TokenStream) :
    items sub closing ended more s = separated (sub 0) closing .expression ended more s := by
  induction more generalizing s with
  | zero => rw [items.eq_def,separated.eq_def]
  | succ more ih => rw [items.eq_def,separated.eq_def]; simp only [ih]

theorem entries_separated (sub : SubParser) (more : Nat) (s : TokenStream) :
    entries sub more s = separated (entry sub) .rightBrace .hashKey .hashEnd more s := by
  induction more generalizing s with
  | zero => rw [entries.eq_def,separated.eq_def]
  | succ more ih => rw [entries.eq_def,separated.eq_def]; simp only [ih]

section
variable {close : Except LexError Token} (closes : Closes close) {limit : Nat} {found : TokenKind}
  {expected : Expected} {position : Position}
include closes

theorem separated_located {R : List TokenKind → α → List TokenKind → Prop}
    {L : List TokenKind → List α → List TokenKind → Prop} {one many : List TokenKind → Prop}
    (first : Trusted close limit R one parse) (distinct : closing ≠ .comma)
    (splits : ∀ {ks as rest}, L ks as rest → (∃ a, R ks a (.symbol closing :: rest)) ∨
      ∃ a middle as', R ks a (.symbol .comma :: middle) ∧ L middle as' rest)
    (last : ∀ {y}, one y → many y)
    (joined : ∀ {y x}, one y → many x → many (y ++ .symbol .comma :: x))
    (more : Nat) (fits : ts.length ≤ limit) (enough : ts.length ≤ more)
    (raised : separated parse closing another ended more ⟨ts,close⟩ =
      .error (.unexpected found expected position)) :
    Located (Starts L) (fun y => ∃ x, y = x ++ [.symbol closing] ∧ many x)
      (TokenStream.mk ts close).all found position := by
  induction more using Nat.strongRecOn generalizing ts with
  | ind more ih =>
      rw [separated.eq_def] at raised
      rcases first.raised fits raised with inside | ⟨a,taken,later,rfl,item,read,raised⟩
      · refine inside.front ?_ fun y item => ⟨_,.symbols [closing],_,rfl,last item⟩
        rintro ks ⟨es,rest,whole⟩
        rcases splits whole with ⟨_,item⟩ | ⟨_,_,_,item,_⟩ <;> exact ⟨_,_,item⟩
      obtain ⟨t,seen,raised⟩ := advance_raised raised
      have same := here_ahead closes seen
      dsimp only at raised
      split at raised
      · rename_i comma
        obtain ⟨middle,rfl⟩ := here_ok seen closes (by simp [comma])
        cases more with
        | zero => simp at enough
        | succ more =>
            simp only [List.length_append,List.length_cons] at fits enough
            have short : middle.length ≤ more := by omega
            have inside := ih more (Nat.lt_succ_self _) (by omega) short (made_raised raised)
            refine inside.beyond closes taken comma ?_ ?_
            · rintro ks - ⟨es,rest,whole⟩
              rcases splits whole with ⟨_,item⟩ | ⟨_,_,_,item,others⟩
              · have closed := (first.next read same (comma.symm ▸ item)).1
                exact absurd (TokenKind.symbol.inj (comma.symm.trans closed)) distinct.symm
              · obtain ⟨_,rfl⟩ := first.next read same (comma.symm ▸ item)
                exact ⟨_,_,others⟩
            · rintro y ⟨x,rfl,others⟩
              exact ⟨kinds taken ++ .symbol .comma :: x,by simp,joined item others⟩
      · split at raised
        · cases raised
        · rename_i notComma notClosing
          refine .refused taken seen raised ?_ ⟨_,.symbols [closing],_,rfl,last item⟩
          rintro ks ⟨es,rest,whole⟩
          rcases splits whole with ⟨_,item⟩ | ⟨_,_,_,item,_⟩
          · exact notClosing (first.next read same item).1
          · exact notComma (first.next read same item).1

theorem expect_raised {f : Parsed Token → Except ParseError α}
    (raised : (expect symbol ⟨ts,close⟩ >>= f) = .error (.unexpected found expected position)) :
    ∃ t, here ⟨ts,close⟩ = .ok t ∧ (t.kind ≠ .symbol symbol ∧
      (unexpected t (.symbol symbol) : Except ParseError α) = .error (.unexpected found expected position) ∨
      ∃ later, ts = t :: later ∧ t.kind = .symbol symbol ∧
        f (t,⟨later,close⟩) = .error (.unexpected found expected position)) := by
  unfold expect at raised
  rw [bind_assoc] at raised
  obtain ⟨t,seen,raised⟩ := here_raised raised
  refine ⟨t,seen,?_⟩
  split at raised
  · rename_i matched
    obtain ⟨later,rfl⟩ := here_ok seen closes (by simp [matched])
    obtain ⟨u,again,raised⟩ := advance_raised raised
    cases Except.ok.inj again
    exact .inr ⟨later,rfl,matched,raised⟩
  · rename_i different
    exact .inl ⟨different,raised⟩

end

theorem word_written : Written ['i','n'] (.identifier "in") := .of_read (by simp) rfl

theorem variable_written : Written ['$','x'] (.variable "x") := .of_read (by simp) rfl

def boundName? : TokenKind → Option String
  | .variable name => some name
  | _ => none

-- A name and its value: a member of a hash, or a binding.
inductive ReadsPair (name? : TokenKind → Option String) (between : Symbol) :
    List TokenKind → String × Expr → List TokenKind → Prop where
  | pair (named : name? kind = some name) (value : Reads 0 ks e rest) :
      ReadsPair name? between (kind :: .symbol between :: ks) (name,e) rest

inductive Pair (name? : TokenKind → Option String) (between : Symbol) : List TokenKind → Prop where
  | pair (named : name? kind = some name) (value : Expression e) :
      Pair name? between (kind :: .symbol between :: e)

theorem variable_named (named : boundName? kind = some name) : kind = .variable name := by
  unfold boundName? at named
  split at named
  · exact congrArg _ (Option.some.inj named)
  · cases named

theorem ReadsBindings.splits (read : ReadsBindings ks bs rest) :
    (∃ p, ReadsPair boundName? .assign ks p rest ∧ rest.head? ≠ some (.symbol .comma)) ∨
      ∃ p middle bs', ReadsPair boundName? .assign ks p (.symbol .comma :: middle) ∧
        ReadsBindings middle bs' rest := by
  cases read with
  | last value ended => exact .inl ⟨_,.pair rfl value,ended⟩
  | more value others => exact .inr ⟨_,_,_,.pair rfl value,others⟩

theorem Pair.last (first : Pair boundName? .assign y) : Bindings y := by
  cases first with
  | pair named value =>
      cases variable_named named
      exact .last value

theorem Pair.more (first : Pair boundName? .assign y) (others : Bindings x) :
    Bindings (y ++ .symbol .comma :: x) := by
  cases first with
  | pair named value =>
      cases variable_named named
      exact .more value others

section
variable {name? : TokenKind → Option String} {between : Symbol}

theorem ReadsPair.local (read : ReadsPair name? between ks p rest) :
    Local (ReadsPair name? between · p ·) ks rest := by
  cases read with
  | pair named value => exact .front [_,_] (value.local.map fun _ _ => .pair named)

theorem ReadsPair.unique : Unique (ReadsPair name? between) := by
  rintro ks _ rest _ rest' ⟨named,value⟩ second
  cases second with
  | pair named' value' =>
      obtain ⟨rfl,rfl⟩ := Reads.unique 0 _ _ _ _ _ value value'
      cases named.symm.trans named'
      exact ⟨rfl,rfl⟩

theorem ReadsPair.derived (read : ReadsPair name? between ks p rest) :
    ∃ y, ks = y ++ rest ∧ Pair name? between y := by
  cases read with
  | pair named value =>
      obtain ⟨y,rfl,derived⟩ := value.derived
      exact ⟨_ :: .symbol between :: y,rfl,.pair named derived⟩

end

def pair (sub : SubParser) (name? : TokenKind → Option String) (between : Symbol) (expected : Expected)
    (s : TokenStream) : Except ParseError (Parsed (String × Expr)) :=
  advance s >>= fun first =>
    match name? first.1.kind with
    | some name => expect between first.2 >>= fun taken => sub 0 taken.2 >>= fun value =>
        .ok ((name,value.1),value.2)
    | none => unexpected first.1 expected

theorem binding_pair (sub : SubParser) : binding sub = pair sub boundName? .assign .binding := by
  funext s
  unfold binding pair
  congr 1
  funext ⟨t,s⟩
  dsimp only
  cases t.kind <;> rfl

section
variable {close : Except LexError Token} (closes : Closes close) {limit : Nat} {sub : SubParser}
  (trusted : ∀ power, Trusted close limit (Reads power) Expression (sub power))
include closes trusted

theorem pair_located (nothing : name? .ending = none) (example_ : Written text kind)
    (named : name? kind = some name) (fits : ts.length ≤ limit)
    (raised : pair sub name? between wanted ⟨ts,close⟩ = .error (.unexpected found expected position)) :
    Located (Starts (ReadsPair name? between)) (Pair name? between) (TokenStream.mk ts close).all found
      position := by
  have value : Expression [.symbol .at] := Atom.current.expression
  obtain ⟨t,seen,raised⟩ := advance_raised raised
  dsimp only at raised
  split at raised
  · rename_i key keyed
    obtain ⟨later,rfl⟩ := here_ok seen closes (by intro ending; rw [ending,nothing] at keyed; cases keyed)
    obtain ⟨u,next,⟨other,raised⟩ | ⟨middle,rfl,matched,raised⟩⟩ := expect_raised closes raised
    · refine .refused [t] next raised ?_ ⟨_,.symbols [between,.at],.pair keyed value⟩
      rintro ks ⟨_,_,read⟩
      generalize whole : kinds [t] ++ u.kind :: ks = all at read
      cases read with
      | pair => exact other (List.cons.inj (List.cons.inj whole).2).1
    · have short : middle.length ≤ limit := by simp only [List.length_cons] at fits; omega
      have inside := (trusted 0).located short (made_raised raised)
      refine inside.beyond closes [t] matched ?_ fun y value => .pair keyed value
      rintro ks - ⟨_,_,read⟩
      generalize whole : kinds [t] ++ .symbol between :: ks = all at read
      cases read with
      | pair _ value =>
          cases (List.cons.inj (List.cons.inj whole).2).2
          exact ⟨_,_,value⟩
  · rename_i unnamed
    refine .refused [] seen raised ?_ ⟨_,.cons example_ (.symbols [between,.at]),.pair named value⟩
    rintro ks ⟨_,_,read⟩
    generalize whole : kinds [] ++ t.kind :: ks = all at read
    cases read with
    | pair keyed =>
        rw [(List.cons.inj whole).1,keyed] at unnamed
        cases unnamed

theorem entry_trusted : Trusted close limit (ReadsPair key? .colon) (Pair key? .colon) (entry sub) where
  sound := by
    intro ts ⟨key,e⟩ after parsed
    obtain ⟨kind,start,later,split,named,rfl,read⟩ :=
      entry_ok closes (fun power => (trusted power).sound) parsed
    exact ⟨later,rfl,split ▸ .pair named read⟩
  forward given := entry_uniform (remains_view given) fun power => (trusted power).forward given
  near := ReadsPair.local
  unique := ReadsPair.unique
  derived read := derived_taken read.derived
  located fits raised := by
    have same : entry sub = pair sub key? .colon .hashKey := funext entry_keyed
    rw [same] at raised
    exact pair_located closes trusted rfl word_written rfl fits raised

theorem binding_trusted :
    Trusted close limit (ReadsPair boundName? .assign) (Pair boundName? .assign) (binding sub) where
  sound := by
    intro ts ⟨name,e⟩ after parsed
    obtain ⟨start,later,split,rfl,read⟩ := binding_ok closes (fun power => (trusted power).sound) parsed
    exact ⟨later,rfl,split ▸ .pair rfl read⟩
  forward given := binding_uniform (remains_view given) fun power => (trusted power).forward given
  near := ReadsPair.local
  unique := ReadsPair.unique
  derived read := derived_taken read.derived
  located fits raised := by
    rw [binding_pair] at raised
    exact pair_located closes trusted rfl variable_written rfl fits raised

theorem items_located (distinct : closing ≠ .comma) (fits : ts.length ≤ limit)
    (raised : items sub closing ended ts.length ⟨ts,close⟩ = .error (.unexpected found expected position)) :
    Located (Starts (ReadsItems closing)) (fun y => ∃ x, y = x ++ [.symbol closing] ∧ Items x)
      (TokenStream.mk ts close).all found position := by
  rw [items_separated] at raised
  refine separated_located closes (trusted 0) distinct ?_ .last .more _ fits (Nat.le_refl _) raised
  intro ks es rest read
  cases read with
  | last item => exact .inl ⟨_,item⟩
  | more item others => exact .inr ⟨_,_,_,item,others⟩

theorem list_located (fits : ts.length ≤ limit)
    (raised : list sub ⟨ts,close⟩ = .error (.unexpected found expected position)) :
    Located (Starts (ReadsItems .rightBracket)) (fun y => ∃ x, y = x ++ [.symbol .rightBracket] ∧ Items x)
      (TokenStream.mk ts close).all found position := by
  exact items_located closes trusted (by decide) fits (made_raised raised)

theorem hash_located (fits : ts.length ≤ limit)
    (raised : hash sub ⟨ts,close⟩ = .error (.unexpected found expected position)) :
    Located (Starts ReadsEntries) (fun y => ∃ x, y = x ++ [.symbol .rightBrace] ∧ Members x)
      (TokenStream.mk ts close).all found position := by
  replace raised := made_raised raised
  rw [entries_separated] at raised
  refine separated_located closes (entry_trusted closes trusted) (by decide) ?_ ?_ ?_ _ fits
    (Nat.le_refl _) raised
  · intro ks es rest read
    cases read with
    | last named value => exact .inl ⟨_,.pair named value⟩
    | more named value others => exact .inr ⟨_,_,_,.pair named value,others⟩
  · rintro _ ⟨named,value⟩
    exact .last named value
  · rintro _ x ⟨named,value⟩ others
    exact .more named value others

theorem bindings_located (more : Nat) (fits : ts.length ≤ limit) (enough : ts.length ≤ more)
    (raised : bindings sub more ⟨ts,close⟩ = .error (.unexpected found expected position)) :
    Located (Starts ReadsBindings) Bindings (TokenStream.mk ts close).all found position := by
  have first := binding_trusted closes trusted
  induction more using Nat.strongRecOn generalizing ts with
  | ind more ih =>
      rw [bindings.eq_def] at raised
      rcases first.raised fits raised with inside | ⟨a,taken,later,rfl,bound,read,raised⟩
      · refine inside.map closes ?_ fun y pair => pair.last
        rintro ks - ⟨bs,rest,whole⟩
        rcases whole.splits with ⟨_,pair,_⟩ | ⟨_,_,_,pair,_⟩ <;> exact ⟨_,_,pair⟩
      dsimp only at raised
      split at raised
      · rename_i comma
        obtain ⟨t,seen,raised⟩ := advance_raised raised
        have same := here_ahead closes seen
        have here_comma := (isAt_head closes later (by simp)).mp comma
        cases later with
        | nil => cases here_comma
        | cons u middle =>
            cases Except.ok.inj seen
            have comma : t.kind = .symbol .comma := Option.some.inj here_comma
            cases more with
            | zero => simp at enough
            | succ more =>
                simp only [List.length_append,List.length_cons] at fits enough
                have short : middle.length ≤ more := by omega
                have inside := ih more (Nat.lt_succ_self _) (by omega) short (made_raised raised)
                refine inside.beyond closes taken comma ?_ fun y others => bound.more others
                rintro ks - ⟨bs,rest,whole⟩
                rcases whole.splits with ⟨_,pair,ended⟩ | ⟨_,_,_,pair,others⟩
                · obtain ⟨_,rfl⟩ := first.settled read (show ahead (.symbol .comma :: ks) = _ from comma.symm) pair
                  exact absurd rfl ended
                · obtain ⟨_,rfl⟩ := first.next read comma pair
                  exact ⟨_,_,others⟩
      · cases raised

theorem bindings_trusted : Trusted close limit ReadsBindings Bindings
    (fun s => bindings sub s.tokens.length s) where
  sound ts := bindings_sound closes (fun power => (trusted power).sound) ts.length ts
  forward given := by
    intro s s' related
    have view := remains_view given
    dsimp only
    rw [view.size related]
    exact bindings_uniform view (fun power => (trusted power).forward given) _ related
  near := ReadsBindings.local
  unique := ReadsBindings.unique
  derived read := derived_taken read.derived
  located fits raised := bindings_located closes trusted _ fits (Nat.le_refl _) raised

theorem letIn_located (fits : ts.length ≤ limit)
    (raised : letIn sub ⟨ts,close⟩ = .error (.unexpected found expected position)) :
    Located (fun ks => ∃ bs body middle rest, ReadsBindings ks bs (.identifier "in" :: middle) ∧
        Reads 0 middle body rest)
      (fun y => Expression (.identifier "let" :: y)) (TokenStream.mk ts close).all found position := by
  have first := bindings_trusted closes trusted
  have body {v x : List TokenKind} (names : Bindings v) (value : Expression x) :
      Expression (.identifier "let" :: (v ++ .identifier "in" :: x)) := by
    have put : ∀ {u}, Operand u → Operand ((.identifier "let" :: (v ++ [.identifier "in"])) ++ u) :=
      fun operand => by simpa using Operand.letIn names operand
    simpa using value.prefixed put
  have closing : Spelled [.identifier "in",.symbol .at] := .cons word_written (.symbols [.at])
  rcases first.raised fits raised with inside | ⟨bs,taken,later,rfl,names,read,raised⟩
  · refine inside.front ?_ fun y names => ⟨_,closing,body names Atom.current.expression⟩
    rintro ks ⟨bs,_,_,_,names,_⟩
    exact ⟨_,_,names⟩
  obtain ⟨t,seen,raised⟩ := here_raised raised
  have same := here_ahead closes seen
  split at raised
  · rename_i word
    obtain ⟨middle,rfl⟩ := here_ok seen closes (by simp [word])
    obtain ⟨_,_,raised⟩ := advance_raised raised
    have short : middle.length ≤ limit := by simp at fits; omega
    have inside := (trusted 0).located short (made_raised raised)
    refine inside.beyond closes taken word ?_ fun y value => body names value
    rintro ks - ⟨bs,e,_,rest,names,value⟩
    obtain ⟨_,rfl⟩ := first.next read (same.trans word) names
    exact ⟨_,_,value⟩
  · rename_i other
    refine .refused taken seen raised ?_ ⟨_,closing,body names Atom.current.expression⟩
    rintro ks ⟨_,_,_,_,names,_⟩
    exact other (first.next read same names).1

theorem call_located (fits : ts.length ≤ limit)
    (raised : fieldOrCall sub name ⟨ts,close⟩ = .error (.unexpected found expected position)) :
    opensCall (kinds ts) = true ∧
      Located (fun ks => ∃ ks' es rest, ks = .symbol .leftParen :: ks' ∧ ReadsArguments ks' es rest)
        (fun y => Call (.identifier name :: y)) (TokenStream.mk ts close).all found position := by
  unfold fieldOrCall at raised
  rw [isAt_opensCall closes] at raised
  split at raised
  · rename_i opened
    refine ⟨opened,?_⟩
    obtain ⟨t,seen,⟨other,_⟩ | ⟨later,rfl,paren,raised⟩⟩ := expect_raised closes raised
    · have first := (opensCall_head _).mp opened
      cases ts with
      | nil => cases first
      | cons u later => cases Except.ok.inj seen; exact absurd (Option.some.inj first) other
    dsimp only at raised
    rw [isAt_closesCall closes] at raised
    split at raised
    · obtain ⟨_,_,absent⟩ := advance_raised raised
      cases absent
    · rename_i given
      have short : later.length ≤ limit := Nat.le_of_succ_le fits
      have inside := items_located closes trusted (by decide) short (made_raised raised)
      refine inside.next closes paren ?_ ?_
      · rintro ks same ⟨ks',es,rest,split,read⟩
        cases (List.cons.inj split).2
        cases read with
        | none => exact absurd (closesCall_ahead same.symm) given
        | some _ items => exact ⟨_,_,items⟩
      · rintro _ ⟨x,rfl,items⟩
        exact .given items
  · cases raised

omit closes trusted in
theorem quotedField_raised :
    quotedField name p s ≠ .error (.unexpected found expected position) := by
  unfold quotedField
  split <;> nofun

-- An expression and what closes it.
theorem enclosed_located {f : Parsed Expr → Parsed Token → Except ParseError α}
    (accepts : ∀ e t, f e t ≠ .error (.unexpected found expected position)) (fits : ts.length ≤ limit)
    (raised : (sub 0 ⟨ts,close⟩ >>= fun e => expect closing e.2 >>= f e) =
      .error (.unexpected found expected position)) :
    Located (fun ks => ∃ e rest, Reads 0 ks e (.symbol closing :: rest))
      (fun y => ∃ x, y = x ++ [.symbol closing] ∧ Expression x)
      (TokenStream.mk ts close).all found position := by
  rcases (trusted 0).raised fits raised with inside | ⟨e,taken,later,rfl,value,read,raised⟩
  · refine inside.front ?_ fun y value => ⟨_,.symbols [closing],_,rfl,value⟩
    rintro ks ⟨e,rest,read⟩
    exact ⟨_,_,read⟩
  · obtain ⟨t,seen,⟨other,raised⟩ | ⟨_,_,_,absent⟩⟩ := expect_raised closes raised
    · refine .refused taken seen raised ?_ ⟨_,.symbols [closing],_,rfl,value⟩
      rintro ks ⟨_,rest,again⟩
      exact other ((trusted 0).next read (here_ahead closes seen) again).1
    · exact absurd absent (accepts _ _)

theorem condition_located (fits : ts.length ≤ limit)
    (raised : condition sub ⟨ts,close⟩ = .error (.unexpected found expected position)) :
    Located (fun ks => ∃ e rest, Reads 0 ks e (.symbol .rightBracket :: rest))
      (fun y => ∃ x, y = x ++ [.symbol .rightBracket] ∧ Expression x)
      (TokenStream.mk ts close).all found position :=
  enclosed_located closes trusted (f := fun e t => .ok (Fragment.filter e.1,t.2)) (fun _ _ => nofun) fits raised

theorem afterDot_located (fits : ts.length ≤ limit)
    (raised : afterDot sub ⟨ts,close⟩ = .error (.unexpected found expected position)) :
    Located (Starts ReadsSelected) (fun y => Access (.symbol .dot :: y))
      (TokenStream.mk ts close).all found position := by
  obtain ⟨t,seen,raised⟩ := advance_raised raised
  dsimp only at raised
  split at raised
  · rename_i name identifier
    obtain ⟨later,rfl⟩ := here_ok seen closes (by simp [identifier])
    obtain ⟨opened,inside⟩ := call_located closes trusted (Nat.le_of_succ_le fits) (made_raised raised)
    refine inside.next closes identifier ?_ fun y called => .call called
    rintro ks same ⟨f,rest,read⟩
    cases read with
    | field plain => exact absurd ((opensCall_ahead same).trans opened) (Bool.eq_false_iff.mp plain)
    | call arguments => exact ⟨_,_,_,rfl,arguments⟩
  · exact absurd (made_raised raised) quotedField_raised
  · cases raised
  · rename_i bracket
    obtain ⟨later,rfl⟩ := here_ok seen closes (by simp [bracket])
    have inside := list_located closes trusted (Nat.le_of_succ_le fits) (made_raised raised)
    refine inside.next closes bracket ?_ ?_
    · rintro ks - ⟨f,rest,read⟩
      cases read with
      | list items => exact ⟨_,_,items⟩
    · rintro _ ⟨x,rfl,items⟩
      exact .list (.items items)
  · rename_i brace
    obtain ⟨later,rfl⟩ := here_ok seen closes (by simp [brace])
    have inside := hash_located closes trusted (Nat.le_of_succ_le fits) (made_raised raised)
    refine inside.next closes brace ?_ ?_
    · rintro ks - ⟨f,rest,read⟩
      cases read with
      | hash entries => exact ⟨_,_,entries⟩
    · rintro _ ⟨x,rfl,members⟩
      exact .hash (.members members)
  · rename_i notIdentifier notQuoted notStar notBracket notBrace
    refine .refused [] seen raised ?_ ⟨_,.symbols [.star],.star⟩
    rintro ks ⟨f,rest,read⟩
    generalize whole : kinds [] ++ t.kind :: ks = all at read
    cases read with
    | field => exact notIdentifier _ (List.cons.inj whole).1
    | call => exact notIdentifier _ (List.cons.inj whole).1
    | quoted => exact notQuoted _ (List.cons.inj whole).1
    | values => exact notStar (List.cons.inj whole).1
    | list => exact notBracket (List.cons.inj whole).1
    | hash => exact notBrace (List.cons.inj whole).1

theorem word_located (fits : ts.length ≤ limit) (raised : (if name == "let" && atVariable ⟨ts,close⟩ then
      letIn sub ⟨ts,close⟩ else fieldOrCall sub name ⟨ts,close⟩) = .error (.unexpected found expected position)) :
    Located (Starts (ReadsOperand (.identifier name))) (fun y => Expression (.identifier name :: y))
      (TokenStream.mk ts close).all found position := by
  rw [atVariable_opensBinding closes] at raised
  split at raised
  · rename_i word
    simp only [Bool.and_eq_true,beq_iff_eq] at word
    obtain ⟨rfl,opened⟩ := word
    refine (letIn_located closes trusted fits raised).map closes ?_ fun _ value => value
    rintro ks same ⟨e,rest,read⟩
    have bound := (opensBinding_ahead same).trans opened
    cases read with
    | field _ free => exact absurd bound (Bool.eq_false_iff.mp (free rfl))
    | call => cases bound
    | letIn names inner => exact ⟨_,_,_,_,names,inner⟩
  · obtain ⟨opened,inside⟩ := call_located closes trusted fits raised
    refine inside.map closes ?_ fun y called => (Atom.call called).expression
    rintro ks same ⟨e,rest,read⟩
    have paren := (opensCall_ahead same).trans opened
    cases read with
    | field plain => exact absurd paren (Bool.eq_false_iff.mp plain)
    | call arguments => exact ⟨_,_,_,rfl,arguments⟩
    | letIn names => cases names <;> cases paren

-- A bracket that opens an operand is an index, a slice or a list; which one the parser has
-- settled on is told by the first token behind it, unless that is a star.
theorem opening_located (fits : ts.length ≤ limit) (raised : (bracket? ⟨ts,close⟩ >>= fun
      | some (piece,s) => pure (Expr.current.apply piece,s)
      | none => list sub ⟨ts,close⟩) = .error (.unexpected found expected position)) :
    Located (Starts (ReadsOperand (.symbol .leftBracket))) (fun y => Expression (.symbol .leftBracket :: y))
      (TokenStream.mk ts close).all found position := by
  rcases bind_error.mp raised with raised | ⟨piece?,absent,raised⟩
  · obtain ⟨opens,inside⟩ := bracket_located closes raised
    refine inside.map closes ?_ fun y piece => (Atom.bracket piece).expression
    rintro ks same ⟨e,rest,read⟩
    cases read with
    | list plain => exact absurd (opensBracket_first (same ▸ opens)) (Bool.eq_false_iff.mp plain)
    | bracket piece => exact ⟨_,_,piece⟩
  · split at raised
    · cases raised
    · have plain := bracket_none closes absent
      refine (list_located closes trusted fits raised).map closes ?_ ?_
      · rintro ks same ⟨e,rest,read⟩
        cases read with
        | list _ items => exact ⟨_,_,items⟩
        | bracket piece =>
            rcases piece.listed with items | opens
            · exact items
            · exact absurd (opensBracket_first (same ▸ opens)) (Bool.eq_false_iff.mp plain)
      · rintro _ ⟨x,rfl,items⟩
        exact (Atom.list (.items items)).expression

-- The token that begins an operand may be the one that is refused; no reading begins with it then.
theorem operand_located (t : Token) (fits : ts.length ≤ limit)
    (raised : operand sub t ⟨ts,close⟩ = .error (.unexpected found expected position)) :
    Located (Starts (ReadsOperand t.kind)) (fun y => Expression (t.kind :: y))
        (TokenStream.mk ts close).all found position ∨
      (unexpected t .expression : Except ParseError Unit) = .error (.unexpected found expected position) ∧
        ∀ ks, ¬ Starts (ReadsOperand t.kind) ks := by
  unfold operand at raised
  generalize kind : t.kind = k at raised ⊢
  split at raised
  · exact .inl (word_located closes trusted fits raised)
  · exact absurd raised quotedField_raised
  · cases raised
  · cases raised
  · cases raised
  · cases raised
  · cases raised
  · cases raised
  · refine .inl (((trusted _).located fits (made_raised raised)).map closes ?_ fun y value =>
      @Expression.prefixed [_] _ .not value)
    rintro ks - ⟨e,rest,read⟩
    cases read with
    | not inner => exact ⟨_,_,inner⟩
  · refine .inl (((trusted _).located fits (made_raised raised)).map closes ?_ fun y value =>
      @Expression.prefixed [_] _ .reference value)
    rintro ks - ⟨e,rest,read⟩
    cases read with
    | reference inner => exact ⟨_,_,inner⟩
  · have inside := enclosed_located closes trusted (f := fun e t => .ok (e.1,t.2)) (fun _ _ => nofun) fits raised
    refine .inl (inside.map closes ?_ ?_)
    · rintro ks - ⟨e,rest,read⟩
      cases read with
      | group inner => exact ⟨_,_,inner⟩
    · rintro _ ⟨x,rfl,value⟩
      exact (Atom.group value).expression
  · refine .inl ((hash_located closes trusted fits raised).map closes ?_ ?_)
    · rintro ks - ⟨e,rest,read⟩
      cases read with
      | hash entries => exact ⟨_,_,entries⟩
    · rintro _ ⟨x,rfl,members⟩
      exact (Atom.hash (.members members)).expression
  · exact .inl (opening_located closes trusted fits raised)
  · cases raised
  · refine .inl ((condition_located closes trusted fits (made_raised raised)).map closes ?_ ?_)
    · rintro ks - ⟨e,rest,read⟩
      cases read with
      | filter condition => exact ⟨_,_,condition⟩
    · rintro _ ⟨x,rfl,value⟩
      exact (Atom.bracket (.filter value)).expression
  · refine .inr ⟨by cases raised; rfl,?_⟩
    rintro ks ⟨e,rest,read⟩
    cases read <;> simp_all

theorem continued_located (left : Expr) (op : Operator) (fits : ts.length ≤ limit)
    (raised : continued sub left op p ⟨ts,close⟩ = .error (.unexpected found expected position)) :
    Located (Starts (ReadsContinued left op))
      (fun y => ∀ x, Expression x → Expression (x ++ .symbol op.symbol :: y))
      (TokenStream.mk ts close).all found position := by
  have binary (power : op.power ≤ 5)
      (starts : ∀ ks, Starts (ReadsContinued left op) ks → Starts (Reads op.power) ks)
      (raised : sub op.power ⟨ts,close⟩ = .error (.unexpected found expected position)) :
      Located (Starts (ReadsContinued left op))
        (fun y => ∀ x, Expression x → Expression (x ++ .symbol op.symbol :: y))
        (TokenStream.mk ts close).all found position :=
    ((trusted _).located fits raised).map closes (fun ks _ => starts ks) fun y value x before =>
      before.joined ((binary_power op).mpr power) value
  cases op with
  | pipe =>
      refine binary (by decide) ?_ (made_raised raised)
      rintro ks ⟨e,rest,read⟩
      cases read with
      | pipe right => exact ⟨_,_,right⟩
  | or =>
      refine binary (by decide) ?_ (made_raised raised)
      rintro ks ⟨e,rest,read⟩
      cases read with
      | or right => exact ⟨_,_,right⟩
  | and =>
      refine binary (by decide) ?_ (made_raised raised)
      rintro ks ⟨e,rest,read⟩
      cases read with
      | and right => exact ⟨_,_,right⟩
  | compare comparison =>
      refine binary (Nat.le_refl 5) ?_ (made_raised raised)
      rintro ks ⟨e,rest,read⟩
      cases read with
      | compare right => exact ⟨_,_,right⟩
  | flatten => cases raised
  | bracket =>
      rcases bind_error.mp raised with raised | ⟨opened,_,raised⟩
      · refine (bracket_located closes raised).2.map closes ?_ fun y piece x before =>
          before.extended (.bracket piece)
        rintro ks - ⟨e,rest,read⟩
        cases read with
        | bracket piece => exact ⟨_,_,piece⟩
      · split at raised <;> cases raised
  | filter =>
      refine (condition_located closes trusted fits (made_raised raised)).map closes ?_ ?_
      · rintro ks - ⟨e,rest,read⟩
        cases read with
        | filter condition => exact ⟨_,_,condition⟩
      · rintro _ ⟨y,rfl,value⟩ x before
        exact before.extended (.bracket (.filter value))
  | dot =>
      refine (afterDot_located closes trusted fits (made_raised raised)).map closes ?_ fun y access x before =>
        before.extended access
      rintro ks - ⟨e,rest,read⟩
      cases read with
      | dot selected => exact ⟨_,_,selected⟩

theorem continued_trusted (left : Expr) (op : Operator) (p : Position) :
    Trusted close limit (ReadsContinued left op)
      (fun y => ∀ x, Expression x → Expression (x ++ .symbol op.symbol :: y))
      (continued sub left op p) where
  sound := continued_sound closes (fun power => (trusted power).sound) left op p
  forward given := continued_uniform (remains_view given) (fun power => (trusted power).forward given)
    left op rfl
  near := ReadsContinued.local
  unique := ReadsContinued.unique left op
  derived read := derived_taken read.derived
  located := continued_located closes trusted left op

theorem operators_located (left : Expr) (more : Nat) (fits : ts.length ≤ limit)
    (raised : operators sub power more left ⟨ts,close⟩ = .error (.unexpected found expected position)) :
    Located (Starts (ReadsOperators power left)) (fun y => ∀ x, Expression x → Expression (x ++ y))
      (TokenStream.mk ts close).all found position := by
  induction more generalizing ts left with
  | zero => cases raised
  | succ more ih =>
      obtain ⟨t,seen,raised⟩ := here_raised raised
      split at raised
      · rename_i op operator
        have kind := Operator.ofKind?_some.mp operator
        obtain ⟨middle,rfl⟩ := here_ok seen closes (by simp [kind])
        split at raised
        · rename_i strong
          obtain ⟨_,_,raised⟩ := advance_raised raised
          have next := continued_trusted closes trusted left op t.position
          have starts : ∀ ks, Starts (ReadsOperators power left) (.symbol op.symbol :: ks) →
              ∃ next middle e rest, ReadsContinued left op ks next middle ∧
                ReadsOperators power next middle e rest := by
            rintro ks ⟨e,rest,read⟩
            rw [kind] at operator
            cases read with
            | done weak => exact absurd (weak op operator) (Nat.not_le.mpr strong)
            | more found _ first later =>
                cases operator.symm.trans found
                exact ⟨_,_,_,_,first,later⟩
          rcases next.raised (Nat.le_of_succ_le fits) raised with inside |
            ⟨e,taken,later,rfl,continued,read,raised⟩
          · refine inside.next closes kind ?_ fun y continued => continued
            intro ks _ start
            obtain ⟨_,_,_,_,first,_⟩ := starts ks start
            exact ⟨_,_,first⟩
          · have short : later.length ≤ limit := by simp at fits; omega
            refine (ih e short raised).behind closes (t :: taken) ?_ ?_
            · intro ks same start
              rw [kinds_cons,kind,List.cons_append] at start
              obtain ⟨_,_,_,_,first,later⟩ := starts _ start
              obtain ⟨rfl,rfl⟩ := next.settled read same first
              exact ⟨_,_,later⟩
            · intro y others x before
              have whole := others _ (continued x before)
              rw [kinds_cons,kind]
              rwa [List.append_assoc,List.cons_append] at whole
        · cases raised
      · cases raised

end

section
variable {close : Except LexError Token} (closes : Closes close) {found : TokenKind}
  {expected : Expected} {position : Position}
include closes

omit closes in
theorem Located.start (seen : here ⟨ts,close⟩ = .ok t)
    (raised : (unexpected t .expression : Except ParseError α) = .error (.unexpected found expected position))
    (refused : ∀ ks, ¬ Starts (ReadsOperand t.kind) ks) :
    Located (Starts (Reads power)) Expression (TokenStream.mk ts close).all found position := by
  refine .refused [] seen raised ?_ ⟨_,.symbols [.at],Atom.current.expression⟩
  rintro ks ⟨e,rest,read⟩
  generalize whole : kinds [] ++ t.kind :: ks = all at read
  cases whole
  cases read with
  | expression first _ => exact refused _ ⟨_,_,first⟩

theorem expression_located {depth : Nat} (fits : ts.length ≤ depth + 1)
    (trusted : ∀ power, Trusted close depth (Reads power) Expression (expression depth power))
    (raised : expression (depth + 1) power ⟨ts,close⟩ = .error (.unexpected found expected position)) :
    Located (Starts (Reads power)) Expression (TokenStream.mk ts close).all found position := by
  obtain ⟨t,seen,raised⟩ := advance_raised raised
  by_cases ending : t.kind = .ending
  · rcases bind_error.mp raised with raised | ⟨_,absent,_⟩
    · unfold operand at raised
      simp only [ending] at raised
      refine .start seen raised ?_
      rintro ks ⟨_,_,read⟩
      rw [ending] at read
      cases read
    · unfold operand at absent
      simp only [ending] at absent
      cases absent
  obtain ⟨start,rfl⟩ := here_ok seen closes ending
  rcases bind_error.mp raised with raised | ⟨⟨left,s⟩,parsed,raised⟩
  · rcases operand_located closes trusted t (Nat.le_of_succ_le_succ fits) raised with inside | ⟨raised,refused⟩
    · refine inside.next closes rfl ?_ fun y value => value
      rintro ks - ⟨e,rest,read⟩
      cases read with
      | expression first _ => exact ⟨_,_,first⟩
    · exact .start seen raised refused
  · have sound := operand_sound closes (fun power => (trusted power).sound) t
    have forward : Uniform Eq Eq (Remains · · start) (operand (expression depth) t) :=
      operand_uniform (remains_view start) (fun power => (trusted power).forward start) rfl
    obtain ⟨taken,later,rfl,rfl,read⟩ := sound.taken forward parsed
    have short : later.length ≤ depth := by simp at fits; omega
    have inside := operators_located closes trusted left later.length short raised
    have derived : Expression (t.kind :: kinds taken) := derived_taken (P := fun y => Expression (t.kind :: y)) read.derived
    refine inside.behind closes (t :: taken) ?_ fun y others => others _ derived
    rintro ks same ⟨e,rest,whole⟩
    cases whole with
    | expression first more =>
        obtain ⟨rfl,rfl⟩ := read.local.settled (ReadsOperand.unique _) same first
        exact ⟨_,_,more⟩

end

theorem expression_trusted {close : Except LexError Token} (closes : Closes close) (depth power : Nat) :
    Trusted close depth (Reads power) Expression (expression depth power) where
  sound := expression_sound closes depth power
  forward given := expression_uniform (remains_view given) depth power
  near := Reads.local
  unique := Reads.unique power
  derived read := derived_taken read.derived
  located {ts _ _ _} fits raised := by
    cases depth with
    | zero =>
        cases List.length_eq_zero_iff.mp (Nat.le_zero.mp fits)
        obtain ⟨t,seen,raised⟩ := here_raised raised
        refine .start seen raised ?_
        rintro ks ⟨_,_,read⟩
        rw [← here_ahead closes seen] at read
        cases read
    | succ depth => exact expression_located closes fits (expression_trusted closes depth) raised

-- Whole texts.
theorem stream_located {close : Except LexError Token} (closes : Closes close)
    (raised : stream ⟨ts,close⟩ = .error (.unexpected found expected position)) :
    Located (fun ks => ∃ e rest, Reads 0 ks e rest ∧ ahead rest = .ending) Expression
      (TokenStream.mk ts close).all found position := by
  rcases (expression_trusted closes ts.length 0).raised (Nat.le_refl _) raised with inside |
    ⟨e,taken,later,rfl,value,read,raised⟩
  · refine inside.map closes ?_ fun y value => value
    rintro ks - ⟨e,rest,read,_⟩
    exact ⟨_,_,read⟩
  · obtain ⟨t,seen,raised⟩ := here_raised raised
    split at raised
    · cases raised
    · rename_i notEnding
      refine .refused taken seen raised ?_ ⟨[],.symbols [],by rwa [List.append_nil]⟩
      rintro ks ⟨e,rest,again,ended⟩
      have same := here_ahead closes seen
      obtain ⟨_,rfl⟩ := read.local.settled (Reads.unique 0) (show ahead (t.kind :: ks) = _ from same.symm) again
      exact notEnding ended

end JsonQuery.Parser
