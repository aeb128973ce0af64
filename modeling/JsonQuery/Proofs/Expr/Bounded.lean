import JsonQuery.Proofs.Expr.Uniform
import JsonQuery.Proofs.Expr.Unbounded

namespace JsonQuery.Parser.Unbounded

-- The answer is that of a run through the tokens and the ending behind them. As long as no fault is
-- met the ending is not taken.
inductive Follows (ending : Token) (script : Script α) (ts : List Token) :
    Except ParseError (Parsed α) → Prop where
  | ok (run : Runs expression script (ts ++ [ending]) taken depth (.ok a) (rest ++ [ending])) :
      Follows ending script ts (.ok (a,⟨rest,.ok ending⟩))
  | error (run : Runs expression script (ts ++ [ending]) taken depth (.error e) after) :
      Follows ending script ts (.error e)

theorem advance_front (t : Token) (ts : List Token) (ending : Token) :
    advance ⟨t :: ts,.ok ending⟩ = .ok (t,⟨ts,.ok ending⟩) := by
  cases ts <;> rfl

theorem here_front (ts : List Token) (ending : Token) :
    here ⟨ts,.ok ending⟩ = .ok (ts.headD ending) := by
  cases ts <;> rfl

theorem atVariable_front (ts : List Token) (ending : Token) :
    atVariable ⟨ts,.ok ending⟩ = opensBinding [(ts.headD ending).kind] := by
  rw [atVariable_here,here_front]

theorem isAt_front (ts : List Token) (ending : Token) (kind : TokenKind) :
    isAt ⟨ts,.ok ending⟩ kind = ((ts.headD ending).kind == kind) := by
  rw [isAt_here,here_front]

namespace Follows
variable {ending : Token} {ts rest : List Token}

theorem give (a : α) : Follows ending (.give a) ts (.ok (a,⟨ts,.ok ending⟩)) := .ok .give

theorem refuse (e : ParseError) : Follows ending (.refuse e : Script α) ts (.error e) := .error .refuse

theorem shorter {script : Script α} (follows : Follows ending script ts (.ok (a,⟨rest,.ok ending⟩))) :
    rest.length ≤ ts.length ∧ (script.Takes expression → rest.length < ts.length) := by
  cases follows with
  | @ok taken _ _ _ run =>
      have whole := congrArg List.length run.split
      simp only [List.length_append] at whole
      refine ⟨by omega,fun takes => ?_⟩
      have positive := List.length_pos_iff.mpr (takes _ _ _ _ _ run)
      omega

-- What a longer script does beside the steps of a shorter one gives the same answer.
theorem lift {script : Script α} {longer : Script α} {m : Except ParseError (Parsed α)}
    (steps : ∀ {taken depth answer after}, Runs expression script (rest ++ [ending]) taken depth answer after →
      ∃ taken' depth', Runs expression longer (ts ++ [ending]) taken' depth' answer after)
    (follows : Follows ending script rest m) : Follows ending longer ts m := by
  cases follows with
  | ok run => obtain ⟨_,_,run⟩ := steps run; exact .ok run
  | error run => obtain ⟨_,_,run⟩ := steps run; exact .error run

theorem stop {script : Script α} {f : α → Script β} (first : Follows ending script ts (.error e)) :
    Follows ending (script >>= f) ts (.error e) := by
  cases first with
  | error run => exact .error run.bind_error

theorem on {script : Script α} {f : α → Script β} {m : Except ParseError (Parsed β)}
    (first : Follows ending script ts (.ok (a,⟨rest,.ok ending⟩))) (next : Follows ending (f a) rest m) :
    Follows ending (script >>= f) ts m := by
  cases first with
  | ok run => exact next.lift fun later => ⟨_,_,run.bind later⟩

theorem bind {script : Script α} {f : α → Script β} {m : Except ParseError (Parsed α)}
    {g : Parsed α → Except ParseError (Parsed β)} (first : Follows ending script ts m)
    (next : ∀ a rest, rest.length ≤ ts.length ∧ (script.Takes expression → rest.length < ts.length) →
      Follows ending (f a) rest (g (a,⟨rest,.ok ending⟩))) :
    Follows ending (script >>= f) ts (m >>= g) := by
  cases first with
  | ok run => exact on (.ok run) (next _ _ (shorter (.ok run)))
  | error run => exact stop (.error run)

theorem made {script : Script α} {m : Except ParseError (Parsed α)} (first : Follows ending script ts m)
    (make : α → β) : Follows ending (script >>= fun a => pure (make a)) ts
      (m >>= fun pair => pure (make pair.1,pair.2)) :=
  first.bind fun _ _ _ => give _

theorem repeated {round : σ → Script (σ ⊕ α)} {m : Except ParseError (Parsed α)}
    (once : Follows ending (round state >>= Script.turn round .give) ts m) :
    Follows ending (repeated round state) ts m :=
  once.lift fun run => ⟨_,_,.loop run⟩

-- Whoever takes the ending has nothing but a refusal for it.
theorem take (ends : ending.kind = .ending) {f : Token → Script β} {g : Parsed Token → Except ParseError (Parsed β)}
    (final : ∀ text position s, ∃ e, f ⟨.ending,text,position⟩ = .refuse e ∧
      g (⟨.ending,text,position⟩,s) = .error e)
    (next : ∀ t rest, ts = t :: rest → Follows ending (f t) rest (g (t,⟨rest,.ok ending⟩))) :
    Follows ending (token >>= f) ts (advance ⟨ts,.ok ending⟩ >>= g) := by
  cases ts with
  | nil =>
      rcases ending with ⟨kind,text,position⟩
      obtain rfl : kind = .ending := ends
      obtain ⟨e,refused,failed⟩ := final text position (TokenStream.tail ⟨[],.ok ⟨.ending,text,position⟩⟩)
      have run : Runs expression (f ⟨.ending,text,position⟩) [] [] 0 (.error e) [] := refused ▸ .refuse
      change Follows _ _ _ (g _)
      rw [failed]
      exact .error (.take run)
  | cons t rest =>
      rw [advance_front]
      exact (next t rest rfl).lift fun run => ⟨_,_,.take run⟩

theorem looked {f : Token → Script β} {m : Except ParseError (Parsed β)}
    (next : Follows ending (f (ts.headD ending)) ts m) : Follows ending (current >>= f) ts m := by
  cases ts with
  | nil => exact next.lift fun run => ⟨_,_,.look run⟩
  | cons => exact next.lift fun run => ⟨_,_,.look run⟩

theorem look {f : Token → Script β} {g : Token → Except ParseError (Parsed β)}
    (next : Follows ending (f (ts.headD ending)) ts (g (ts.headD ending))) :
    Follows ending (current >>= f) ts (here ⟨ts,.ok ending⟩ >>= g) := by
  rw [here_front]
  exact looked next

theorem peek {f : Token → Script β} {g : Token → Except ParseError (Parsed β)}
    (next : Follows ending (f (ts.headD ending)) (t :: ts) (g (ts.headD ending))) :
    Follows ending (following >>= f) (t :: ts) (here ⟨ts,.ok ending⟩ >>= g) := by
  rw [here_front]
  cases ts with
  | nil => exact next.lift fun run => ⟨_,_,.peek run⟩
  | cons => exact next.lift fun run => ⟨_,_,.peek run⟩

theorem taken {f : Token → Script β} {g : Parsed Token → Except ParseError (Parsed β)}
    (next : Follows ending (f t) ts (g (t,⟨ts,.ok ending⟩))) :
    Follows ending (token >>= f) (t :: ts) (advance ⟨t :: ts,.ok ending⟩ >>= g) := by
  rw [advance_front]
  exact next.lift fun run => ⟨_,_,.take run⟩

theorem answered {script : Script α} {m : Except ParseError (Parsed α)} (follows : Follows ending script ts m) :
    ∃ taken depth after, Runs expression script (ts ++ [ending]) taken depth (m.map Prod.fst) after ∧
      ∀ a s, m = .ok (a,s) → after = s.tokens ++ [ending] := by
  cases follows with
  | ok run =>
      refine ⟨_,_,_,run,?_⟩
      rintro a s ⟨⟩
      rfl
  | error run =>
      refine ⟨_,_,_,run,?_⟩
      rintro a s ⟨⟩

end Follows

section
variable {ending : Token} (ends : ending.kind = .ending) {ts : List Token}
include ends

theorem front_cons (shown : (ts.headD ending).kind = kind) (inside : kind ≠ .ending) : ∃ t rest, ts = t :: rest := by
  cases ts with
  | nil => exact absurd (shown.symm.trans ends) inside
  | cons t rest => exact ⟨t,rest,rfl⟩

theorem isAt_follows {yes no : Script α} {f g : Except ParseError (Parsed α)} (symbol : Symbol)
    (opened : ∀ t rest, ts = t :: rest → Follows ending yes ts f) (plain : Follows ending no ts g) :
    Follows ending (current >>= fun t => if t.kind = .symbol symbol then yes else no) ts
      (if isAt ⟨ts,.ok ending⟩ (.symbol symbol) then f else g) := by
  refine .looked ?_
  by_cases same : (ts.headD ending).kind = .symbol symbol
  · obtain ⟨t,rest,cons⟩ := front_cons ends same (by simp)
    rw [isAt_front,if_pos same,if_pos (beq_iff_eq.mpr same)]
    exact opened t rest cons
  · rw [isAt_front,if_neg same,if_neg fun equal => same (beq_iff_eq.mp equal)]
    exact plain

theorem expect_follows (symbol : Symbol) :
    Follows ending (expect symbol) ts (Parser.expect symbol ⟨ts,.ok ending⟩) := by
  refine Follows.look ?_
  split
  · rename_i same
    obtain ⟨t,rest,rfl⟩ := front_cons ends same (by simp)
    rw [advance_front]
    exact .ok (.take .give)
  · exact .refuse _

section
variable {sub : SubParser} {limit : Nat}
  (deeper : ∀ power ts, ts.length ≤ limit → Follows ending (nested power) ts (sub power ⟨ts,.ok ending⟩))
include deeper

omit deeper in
-- Lists and hashes are read alike. The bound cannot run out: a comma that was taken, and the element
-- in front of it, were among the tokens it counts.
theorem separated_follows {one : Script α} {first : TokenStream → Except ParseError (Parsed α)}
    {many : Nat → TokenStream → Except ParseError (Parsed (List α))}
    {fault : Token → Except ParseError (Parsed (List α))}
    (takes : one.Takes expression) (step : ∀ ts, ts.length ≤ limit → Follows ending one ts (first ⟨ts,.ok ending⟩))
    (unfolded : ∀ more s, many more s = first s >>= fun (a,s) => advance s >>= fun (t,s) =>
      if t.kind = .symbol .comma then
        match more with
        | 0 => here s >>= fault
        | more + 1 => many more s >>= fun (as,s) => pure (a :: as,s)
      else if t.kind = .symbol closing then pure ([a],s)
      else Parser.unexpected t expected)
    (more : Nat) {found : List α} (enough : ts.length ≤ more) (within : ts.length ≤ limit) :
    Follows ending (repeated (separatedRound one closing expected) found) ts
      (many more ⟨ts,.ok ending⟩ >>= fun pair => pure (found ++ pair.1,pair.2)) := by
  induction more using Nat.strongRecOn generalizing found ts with
  | ind more ih =>
      refine .repeated ?_
      change Follows ending ((one.bind _).bind _) ts _
      rw [Script.bind_assoc,unfolded,bind_assoc]
      refine Follows.bind (step ts within) fun a rest fewer => ?_
      have fewer := fewer.2 takes
      dsimp only
      rw [bind_assoc]
      refine .take ends (fun _ _ _ => ⟨_,rfl,rfl⟩) ?_
      rintro t rest rfl
      rw [List.length_cons] at fewer
      dsimp only [Script.bind]
      by_cases comma : t.kind = .symbol .comma
      · cases more with
        | zero => omega
        | succ more =>
            have later := @ih more (Nat.lt_succ_self _) rest (found ++ [a]) (by omega) (by omega)
            simp only [if_pos comma,bind_assoc,pure_bind]
            simp only [List.append_assoc,List.singleton_append] at later
            exact later
      · simp only [if_neg comma]
        split
        · exact .give _
        · exact .refuse _

theorem items_follows (closing : Symbol) (expected : Expected) (within : ts.length ≤ limit) :
    Follows ending (items closing expected) ts (Parser.items sub closing expected ts.length ⟨ts,.ok ending⟩) := by
  rw [← bind_pure (Parser.items ..)]
  exact separated_follows ends (Script.nest_takes expression_opens 0 _) (deeper 0)
    (fun more s => Parser.items.eq_def sub closing expected more s) ts.length (Nat.le_refl _) within

theorem list_follows (within : ts.length ≤ limit) : Follows ending list ts (Parser.list sub ⟨ts,.ok ending⟩) :=
  (items_follows ends deeper _ _ within).made Expr.list

theorem entry_follows (within : ts.length ≤ limit) : Follows ending entry ts (Parser.entry sub ⟨ts,.ok ending⟩) := by
  have value (key : String) {rest : List Token} (fewer : rest.length ≤ limit) : Follows ending
      (expect .colon >>= fun _ => nested 0 >>= fun e => pure (key,e)) rest
      (Parser.expect .colon ⟨rest,.ok ending⟩ >>= fun pair => sub 0 pair.2 >>= fun pair =>
        pure ((key,pair.1),pair.2)) :=
    (expect_follows ends .colon).bind fun _ later shorter =>
      (deeper 0 later (Nat.le_trans shorter.1 fewer)).made (key,·)
  refine .take ends (fun _ _ _ => ⟨_,rfl,rfl⟩) ?_
  rintro ⟨kind,text,position⟩ rest rfl
  have fewer : rest.length ≤ limit := Nat.le_trans (Nat.le_succ _) within
  cases kind with
  | identifier key => exact value key fewer
  | quotedIdentifier key => exact value key fewer
  | _ => exact .refuse _

theorem entries_follows (within : ts.length ≤ limit) :
    Follows ending (repeated entryRound []) ts (Parser.entries sub ts.length ⟨ts,.ok ending⟩) := by
  rw [← bind_pure (Parser.entries ..)]
  exact separated_follows ends (Script.Opens.takes ⟨_,rfl⟩) (fun _ => entry_follows ends deeper)
    (fun more s => Parser.entries.eq_def sub more s) ts.length (Nat.le_refl _) within

theorem hash_follows (within : ts.length ≤ limit) : Follows ending hash ts (Parser.hash sub ⟨ts,.ok ending⟩) :=
  (entries_follows ends deeper within).made Expr.hash

theorem call_follows (name : String) (within : ts.length ≤ limit) :
    Follows ending (call name) ts (Parser.call sub name ⟨ts,.ok ending⟩) := by
  refine (expect_follows ends .leftParen).bind fun _ rest fewer => ?_
  refine isAt_follows ends .rightParen ?_ ?_
  · rintro t later rfl
    exact .taken (.give _)
  · exact (items_follows ends deeper _ _ (Nat.le_trans fewer.1 within)).made (Expr.call name)

theorem fieldOrCall_follows (name : String) (within : ts.length ≤ limit) :
    Follows ending (fieldOrCall name) ts (Parser.fieldOrCall sub name ⟨ts,.ok ending⟩) :=
  isAt_follows ends .leftParen (fun _ _ _ => call_follows ends deeper name within) (.give _)

omit deeper in
theorem quotedField_follows (name : String) (position : Position) :
    Follows ending (quotedField name position) ts (Parser.quotedField name position ⟨ts,.ok ending⟩) :=
  isAt_follows ends .leftParen (fun _ _ _ => .refuse _) (.give _)

theorem binding_follows (within : ts.length ≤ limit) :
    Follows ending binding ts (Parser.binding sub ⟨ts,.ok ending⟩) := by
  refine .take ends (fun _ _ _ => ⟨_,rfl,rfl⟩) ?_
  rintro ⟨kind,text,position⟩ rest rfl
  have fewer : rest.length ≤ limit := Nat.le_trans (Nat.le_succ _) within
  cases kind with
  | «variable» name =>
      exact (expect_follows ends .assign).bind fun _ later shorter =>
        (deeper 0 later (Nat.le_trans shorter.1 fewer)).made (name,·)
  | _ => exact .refuse _

theorem bindings_follows (more : Nat) {found : List (String × Expr)} (enough : ts.length ≤ more)
    (within : ts.length ≤ limit) :
    Follows ending (repeated bindingRound found) ts
      (Parser.bindings sub more ⟨ts,.ok ending⟩ >>= fun pair => pure (found ++ pair.1,pair.2)) := by
  induction more using Nat.strongRecOn generalizing found ts with
  | ind more ih =>
      refine .repeated ?_
      change Follows ending ((binding.bind _).bind _) ts _
      rw [Script.bind_assoc,Parser.bindings.eq_def,bind_assoc]
      refine Follows.bind (binding_follows ends deeper within) fun b rest fewer => ?_
      have fewer := fewer.2 (Script.Opens.takes ⟨_,rfl⟩)
      dsimp only
      rw [isAt_front]
      refine .looked ?_
      dsimp only [Script.bind]
      by_cases comma : (rest.headD ending).kind = .symbol .comma
      · obtain ⟨t,later,rfl⟩ := front_cons ends comma (by simp)
        rw [if_pos comma,if_pos (beq_iff_eq.mpr comma),bind_assoc]
        refine .taken ?_
        cases more with
        | zero => omega
        | succ more =>
            simp only [List.length_cons] at fewer
            have read := @ih more (Nat.lt_succ_self _) later (found ++ [b]) (by omega) (by omega)
            simp only [List.append_assoc,List.singleton_append] at read
            simp only [bind_assoc,pure_bind]
            exact read
      · rw [if_neg comma,if_neg fun equal => comma (beq_iff_eq.mp equal)]
        exact .give _

theorem letIn_follows (within : ts.length ≤ limit) :
    Follows ending letIn ts (Parser.letIn sub ⟨ts,.ok ending⟩) := by
  have names := @bindings_follows _ ends ts _ _ deeper ts.length [] (Nat.le_refl _) within
  rw [show (Parser.bindings sub ts.length ⟨ts,.ok ending⟩ >>= fun pair => pure ([] ++ pair.1,pair.2)) = _
    from bind_pure _] at names
  refine names.bind fun bs rest fewer => ?_
  refine .look ?_
  split
  · rename_i word
    obtain ⟨t,later,rfl⟩ := front_cons ends word (by simp)
    have fewer : later.length ≤ limit := Nat.le_trans (Nat.le_succ _) (Nat.le_trans fewer.1 within)
    exact .taken ((deeper 0 later fewer).made (Expr.letIn bs))
  · exact .refuse _

theorem condition_follows (within : ts.length ≤ limit) :
    Follows ending condition ts (Parser.condition sub ⟨ts,.ok ending⟩) :=
  (deeper 0 ts within).bind fun e _ _ => (expect_follows ends .rightBracket).bind fun _ _ _ =>
    .give (Fragment.filter e)

end

-- A number is taken where none stands in its part yet.
theorem slicePart_follows {p : Option Int → Parts}
    {g : Parsed (Option Int × Token) → Except ParseError (Parsed Fragment)}
    (fresh : ∀ n, (p none).number? n = some (p (some n)))
    (final : ∀ part text position s,
      g ((part,⟨.ending,text,position⟩),s) = .error (.unexpected .ending .slicePart position))
    (next : ∀ part t rest, (part = none → ∀ n, t.kind ≠ .integer n) →
      Follows ending (sliceStep (p part) t >>= Script.turn sliceRound .give) rest (g ((part,t),⟨rest,.ok ending⟩))) :
    Follows ending (repeated sliceRound (p none)) ts (Parser.slicePart ⟨ts,.ok ending⟩ >>= g) := by
  refine .repeated ?_
  rw [Parser.slicePart,bind_assoc]
  refine .take ends (fun _ _ _ => ⟨_,rfl,final ..⟩) ?_
  rintro ⟨kind,text,position⟩ rest rfl
  have absent := next none ⟨kind,text,position⟩ rest
  cases kind with
  | integer n =>
      dsimp only [Script.bind,sliceStep]
      rw [fresh]
      refine .repeated ?_
      rw [bind_assoc]
      refine .take ends (fun _ _ _ => ⟨_,rfl,final ..⟩) ?_
      rintro t rest rfl
      exact next (some n) t rest nofun
  | _ => exact absent fun _ _ => nofun

theorem sliceFrom_follows (start : Option Int) :
    Follows ending (repeated sliceRound (.stop start none)) ts (Parser.sliceFrom start ⟨ts,.ok ending⟩) := by
  refine slicePart_follows ends (p := Parts.stop start) (fun _ => rfl) (fun _ _ _ _ => rfl) ?_
  rintro stop ⟨kind,text,position⟩ rest read
  cases kind with
  | integer n =>
      cases stop with
      | none => exact absurd rfl (read rfl n)
      | some stop => exact .refuse _
  | symbol s =>
      cases s with
      | rightBracket => exact .give _
      | colon =>
          refine slicePart_follows ends (p := Parts.step start stop) (fun _ => rfl) (fun _ _ _ _ => rfl) ?_
          rintro step ⟨kind,text,position⟩ rest read
          cases kind with
          | integer n =>
              cases step with
              | none => exact absurd rfl (read rfl n)
              | some step => exact .refuse _
          | symbol s =>
              cases s with
              | rightBracket => exact .give _
              | _ => exact .refuse _
          | _ => exact .refuse _
      | _ => exact .refuse _
  | _ => exact .refuse _

theorem indexOrSlice_follows (n : Int) :
    Follows ending (repeated sliceRound (.index n)) ts (Parser.indexOrSlice n ⟨ts,.ok ending⟩) := by
  refine .repeated ?_
  refine .take ends (fun _ _ _ => ⟨_,rfl,rfl⟩) ?_
  rintro ⟨kind,text,position⟩ rest rfl
  cases kind with
  | symbol s =>
      cases s with
      | rightBracket => exact .give _
      | colon => exact sliceFrom_follows ends (some n)
      | _ => exact .refuse _
  | _ => exact .refuse _

-- Behind a star the parser looks one token further, and takes neither if it opens a list.
theorem bracket_follows {f : Option Fragment → Script β} {g : Option (Parsed Fragment) → Except ParseError (Parsed β)}
    (found : ∀ piece rest, Follows ending (f (some piece)) rest (g (some (piece,⟨rest,.ok ending⟩))))
    (absent : Follows ending (f none) ts (g none)) :
    Follows ending (bracket? >>= f) ts (Parser.bracket? ⟨ts,.ok ending⟩ >>= g) := by
  unfold Parser.bracket?
  rw [here_front]
  refine .looked ?_
  rcases ts with _ | ⟨⟨kind,text,position⟩,rest⟩
  · rcases ending with ⟨kind,text,position⟩
    obtain rfl : kind = .ending := ends
    exact absent
  · have piece {x : Script Fragment} {m : Except ParseError (Parsed Fragment)} (read : Follows ending x rest m) :
        Follows ending ((x >>= fun a => pure (some a)) >>= f) rest ((m >>= fun a => pure (some a)) >>= g) := by
      cases read with
      | ok run => exact .on (.on (.ok run) (.give _)) (found _ _)
      | error run => exact .stop (.stop (.error run))
    cases kind with
    | integer n =>
        change Follows _ _ _ ((advance ⟨_ :: rest,.ok ending⟩ >>= _) >>= g)
        rw [bind_assoc]
        exact .taken (piece (indexOrSlice_follows ends n))
    | symbol s =>
        cases s with
        | colon =>
            change Follows _ _ _ ((advance ⟨_ :: rest,.ok ending⟩ >>= _) >>= g)
            rw [bind_assoc]
            exact .taken (piece (sliceFrom_follows ends none))
        | star =>
            change Follows _ _ _ ((here ⟨rest,.ok ending⟩ >>= _) >>= g)
            rw [bind_assoc]
            refine .peek ?_
            dsimp only [Script.bind]
            by_cases closing : (rest.headD ending).kind = .symbol .rightBracket
            · obtain ⟨u,later,rfl⟩ := front_cons ends closing (by simp)
              rw [if_pos closing,if_pos closing,bind_assoc]
              refine .taken ?_
              rw [bind_assoc]
              exact .taken (found .wildcard later)
            · rw [if_neg closing,if_neg closing]
              exact absent
        | _ => exact absent
    | _ => exact absent

section
variable {sub : SubParser} {limit : Nat}
  (deeper : ∀ power ts, ts.length ≤ limit → Follows ending (nested power) ts (sub power ⟨ts,.ok ending⟩))
include deeper

theorem afterDot_follows (within : ts.length ≤ limit) :
    Follows ending afterDot ts (Parser.afterDot sub ⟨ts,.ok ending⟩) := by
  refine .take ends (fun _ _ _ => ⟨_,rfl,rfl⟩) ?_
  rintro ⟨kind,text,position⟩ rest rfl
  have fewer : rest.length ≤ limit := Nat.le_trans (Nat.le_succ _) within
  cases kind with
  | identifier name => exact (fieldOrCall_follows ends deeper name fewer).made Fragment.select
  | quotedIdentifier name => exact (quotedField_follows ends name position).made Fragment.select
  | symbol s =>
      cases s with
      | star => exact .give _
      | leftBracket => exact (list_follows ends deeper fewer).made Fragment.select
      | leftBrace => exact (hash_follows ends deeper fewer).made Fragment.select
      | _ => exact .refuse _
  | _ => exact .refuse _

theorem operand_follows (t : Token) (within : ts.length ≤ limit) :
    Follows ending (operand t) ts (Parser.operand sub t ⟨ts,.ok ending⟩) := by
  rcases t with ⟨kind,text,position⟩
  cases kind with
  | identifier name =>
      refine .looked ?_
      dsimp only [Parser.operand,Script.bind]
      rw [atVariable_front]
      split
      · exact letIn_follows ends deeper within
      · exact fieldOrCall_follows ends deeper name within
  | quotedIdentifier name => exact quotedField_follows ends name position
  | rawString | literal | «variable» => exact .give _
  | integer | float | ending => exact .refuse _
  | symbol s =>
      cases s with
      | «at» | dollar | star | flatten => exact .give _
      | not => exact (deeper _ ts within).made Expr.not
      | ampersand => exact (deeper _ ts within).made Expr.reference
      | leftParen =>
          exact (deeper _ ts within).bind fun e _ _ => (expect_follows ends .rightParen).bind fun _ _ _ => .give e
      | leftBrace => exact hash_follows ends deeper within
      | leftBracket =>
          exact bracket_follows ends (fun piece _ => .give (Expr.current.apply piece)) (list_follows ends deeper within)
      | filter => exact (condition_follows ends deeper within).made Expr.current.apply
      | _ => exact .refuse _

theorem continued_follows (left : Expr) (op : Operator) (position : Position) (within : ts.length ≤ limit) :
    Follows ending (continued left op position) ts (Parser.continued sub left op position ⟨ts,.ok ending⟩) := by
  cases op with
  | pipe => exact (deeper _ ts within).made left.pipe
  | or => exact (deeper _ ts within).made left.or
  | and => exact (deeper _ ts within).made left.and
  | compare comparison => exact (deeper _ ts within).made (Expr.compare comparison left)
  | flatten => exact .give _
  | bracket => exact bracket_follows ends (fun piece _ => .give (left.attach piece)) (.refuse _)
  | filter => exact (condition_follows ends deeper within).made left.attach
  | dot => exact (afterDot_follows ends deeper within).made left.attach

-- Whoever has no token left looks at the ending, which is no operator.
theorem operators_follows (power more : Nat) {left : Expr} (enough : ts.length ≤ more) (within : ts.length ≤ limit) :
    Follows ending (repeated (operatorRound power) left) ts
      (Parser.operators sub power more left ⟨ts,.ok ending⟩) := by
  induction more generalizing left ts with
  | zero =>
      obtain rfl : ts = [] := List.length_eq_zero_iff.mp (Nat.le_zero.mp enough)
      rcases ending with ⟨kind,text,position⟩
      obtain rfl : kind = .ending := ends
      exact .repeated (.looked (.give left))
  | succ more ih =>
      refine .repeated (.look ?_)
      dsimp only [Script.bind]
      cases found : Operator.ofKind? (ts.headD ending).kind with
      | none => exact .give left
      | some op =>
          dsimp only
          by_cases strong : power < op.power
          · obtain ⟨t,rest,rfl⟩ := front_cons ends rfl (by rintro same; rw [same] at found; cases found)
            rw [if_pos strong,if_pos strong]
            refine .taken ?_
            have fewer := Nat.le_of_succ_le_succ enough
            have fewer' : rest.length ≤ limit := Nat.le_trans (Nat.le_succ _) within
            change Follows ending ((Script.bind (continued ..) _).bind _) rest _
            rw [Script.bind_assoc]
            refine Follows.bind (continued_follows ends deeper left op t.position fewer') fun next later shorter => ?_
            exact ih (Nat.le_trans shorter.1 fewer) (Nat.le_trans shorter.1 fewer')
          · rw [if_neg strong,if_neg strong]
            exact .give left

end

-- By induction on the bound: what stands inside has one token less. With none left the ending is
-- taken, and refused on both sides.
theorem expression_follows (depth power : Nat) (within : ts.length ≤ depth) :
    Follows ending (nested power) ts (Parser.expression depth power ⟨ts,.ok ending⟩) := by
  induction depth generalizing power ts with
  | zero =>
      obtain rfl : ts = [] := List.length_eq_zero_iff.mp (Nat.le_zero.mp within)
      rcases ending with ⟨kind,text,position⟩
      obtain rfl : kind = .ending := ends
      exact .error (.failed (.take .refuse))
  | succ depth ih =>
      have read : Follows ending (expression power) ts (Parser.expression (depth + 1) power ⟨ts,.ok ending⟩) := by
        refine .take ends (fun _ _ _ => ⟨_,rfl,rfl⟩) ?_
        rintro t rest rfl
        have fewer := Nat.le_of_succ_le_succ within
        have deeper (power : Nat) (ts : List Token) (within : ts.length ≤ depth) := @ih ts power within
        refine (operand_follows ends deeper t fewer).bind fun left later shorter => ?_
        exact operators_follows ends deeper power later.length (Nat.le_refl _) (Nat.le_trans shorter.1 fewer)
      generalize Parser.expression .. = answer at read ⊢
      cases read with
      | ok run => exact .ok (.nest run .give)
      | error run => exact .error (.failed run)

theorem stream_follows (ts : List Token) :
    ∃ m, Follows ending stream ts m ∧ m.map Prod.fst = Parser.stream ⟨ts,.ok ending⟩ := by
  have read := expression_follows ends ts.length 0 (Nat.le_refl _)
  unfold Parser.stream
  generalize Parser.expression .. = answer at read ⊢
  cases read with
  | error run => exact ⟨_,.stop (.error run),rfl⟩
  | @ok taken depth e rest run =>
      change ∃ m, _ ∧ _ = here ⟨rest,.ok ending⟩ >>= _
      rw [here_front]
      dsimp only [Bind.bind,Except.bind]
      cases shown : (rest.headD ending).kind with
      | ending =>
          refine ⟨.ok (e,⟨rest,.ok ending⟩),.on (.ok run) (.looked ?_),rfl⟩
          rw [shown]
          exact .give e
      | _ =>
          refine ⟨.error _,.on (.ok run) (.looked ?_),rfl⟩
          simp only [unexpected,shown]
          exact .refuse _

end

end JsonQuery.Parser.Unbounded
