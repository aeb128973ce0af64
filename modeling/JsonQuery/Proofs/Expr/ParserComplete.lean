import JsonQuery.Proofs.Expr.ParserSound

namespace JsonQuery

@[simp] theorem ok_bind (a : α) (f : α → Except ε β) : (Except.ok a >>= f) = f a := rfl

@[simp] theorem ok_pure (a : α) : (pure a : Except ε α) = .ok a := rfl

namespace Parser

theorem kinds_length (ts : List Token) : (kinds ts).length = ts.length := List.length_map _

theorem kinds_eq_cons :
    kinds ts = k :: ks ↔ ∃ t later, ts = t :: later ∧ t.kind = k ∧ kinds later = ks :=
  List.map_eq_cons_iff

-- In a text that has an ending, whatever the relation allows within the limit is read.
def Complete (eof : Token) (R : List TokenKind → α → List TokenKind → Prop) (limit : Nat)
    (parse : TokenStream → Except ParseError (Parsed α)) : Prop :=
  ∀ ts ks a rest, R ks a rest → kinds ts = ks → ts.length ≤ limit →
    ∃ later, kinds later = rest ∧ parse ⟨ts,.ok eof⟩ = .ok (a,⟨later,.ok eof⟩)

-- What takes at least one token is not read where none is allowed.
theorem complete_nothing {R : List TokenKind → α → List TokenKind → Prop}
    (shorter : ∀ {ks a rest}, R ks a rest → rest.length < ks.length) (limit : Nat) :
    Complete eof R (min limit 0) parse := by
  intro ts ks a rest read same fits
  have := shorter read
  rw [← same,kinds_length] at this
  omega

section
variable {eof : Token}

@[simp] theorem here_found (t : Token) (later : List Token) :
    here ⟨t :: later,.ok eof⟩ = .ok t := rfl

@[simp] theorem advance_found (t : Token) (later : List Token) :
    advance ⟨t :: later,.ok eof⟩ = .ok (t,⟨later,.ok eof⟩) := by
  cases later <;> rfl

theorem expect_found (matched : t.kind = .symbol symbol) :
    expect symbol ⟨t :: later,.ok eof⟩ = .ok (t,⟨later,.ok eof⟩) := by
  simp [expect,matched]

theorem slicePart_found (eof : Token) (split : kinds ts = bound b ++ k :: ks)
    (other : ∀ n, k ≠ .integer n) :
    ∃ t later, t.kind = k ∧ kinds later = ks ∧
      slicePart ⟨ts,.ok eof⟩ = .ok ((b,t),⟨later,.ok eof⟩) := by
  cases b with
  | none =>
      obtain ⟨t,later,rfl,kind,rest⟩ := kinds_eq_cons.mp split
      refine ⟨t,later,kind,rest,?_⟩
      simp only [slicePart,advance_found,ok_bind]
      split
      · rename_i n integer
        exact absurd (kind ▸ integer) (other n)
      · rfl
  | some n =>
      obtain ⟨first,between,rfl,integer,split⟩ := kinds_eq_cons.mp split
      obtain ⟨t,later,rfl,kind,rest⟩ := kinds_eq_cons.mp split
      exact ⟨t,later,kind,rest,by simp [slicePart,integer]⟩

theorem sliceFrom_plain (split : kinds ts = bound stop ++ .symbol .rightBracket :: rest) :
    ∃ later, kinds later = rest ∧
      sliceFrom start ⟨ts,.ok eof⟩ = .ok (.slice ⟨start,stop,none⟩,⟨later,.ok eof⟩) := by
  obtain ⟨t,later,closing,rest,found⟩ := slicePart_found eof split nofun
  exact ⟨later,rest,by simp [sliceFrom,found,closing]⟩

theorem sliceFrom_stepped
    (split : kinds ts = bound stop ++ .symbol .colon :: (bound step ++ .symbol .rightBracket :: rest)) :
    ∃ later, kinds later = rest ∧
      sliceFrom start ⟨ts,.ok eof⟩ = .ok (.slice ⟨start,stop,step⟩,⟨later,.ok eof⟩) := by
  obtain ⟨t,middle,colon,split,found⟩ := slicePart_found eof split nofun
  obtain ⟨u,later,closing,rest,next⟩ := slicePart_found eof split nofun
  exact ⟨later,rest,by simp [sliceFrom,found,colon,next,closing]⟩

-- Up to the first colon a slice is told from an index, or has no first bound.
theorem bracket_slice (split : kinds ts = bound start ++ .symbol .colon :: ks)
    (others : ∀ middle, kinds middle = ks → ∃ later, kinds later = rest ∧
      sliceFrom start ⟨middle,.ok eof⟩ = .ok (f,⟨later,.ok eof⟩)) :
    ∃ later, kinds later = rest ∧ bracket? ⟨ts,.ok eof⟩ = .ok (some (f,⟨later,.ok eof⟩)) := by
  cases start with
  | none =>
      obtain ⟨t,middle,rfl,colon,split⟩ := kinds_eq_cons.mp split
      obtain ⟨later,rest,found⟩ := others middle split
      exact ⟨later,rest,by simp [bracket?,colon,found]⟩
  | some n =>
      obtain ⟨t,between,rfl,integer,split⟩ := kinds_eq_cons.mp split
      obtain ⟨u,middle,rfl,colon,split⟩ := kinds_eq_cons.mp split
      obtain ⟨later,rest,found⟩ := others middle split
      exact ⟨later,rest,by simp [bracket?,integer,indexOrSlice,colon,found]⟩

theorem bracket_found (eof : Token) (read : ReadsBracket ks f rest) (same : kinds ts = ks) :
    ∃ later, kinds later = rest ∧ bracket? ⟨ts,.ok eof⟩ = .ok (some (f,⟨later,.ok eof⟩)) := by
  cases read with
  | index =>
      obtain ⟨t,middle,rfl,integer,split⟩ := kinds_eq_cons.mp same
      obtain ⟨u,later,rfl,closing,rest⟩ := kinds_eq_cons.mp split
      exact ⟨later,rest,by simp [bracket?,integer,indexOrSlice,closing]⟩
  | slice => exact bracket_slice same fun _ => sliceFrom_plain
  | stepped => exact bracket_slice same fun _ => sliceFrom_stepped
  | wildcard =>
      obtain ⟨t,middle,rfl,star,split⟩ := kinds_eq_cons.mp same
      obtain ⟨u,later,rfl,closing,rest⟩ := kinds_eq_cons.mp split
      exact ⟨later,rest,by simp [bracket?,star,TokenStream.tail,closing]⟩

end

section
variable {eof : Token} (ending : eof.kind = .ending)
include ending

theorem closes_ending : Closes (.ok eof) := fun _ same => Except.ok.inj same ▸ ending

theorem bracket_absent (opened : opensBracket (kinds ts) = false) :
    bracket? ⟨ts,.ok eof⟩ = .ok none := by
  cases ts with
  | nil => simp [bracket?,ending]
  | cons t later =>
      simp only [bracket?,here_found,ok_bind]
      split
      · rename_i n integer
        simp [integer,opensBracket] at opened
      · rename_i colon
        simp [colon,opensBracket] at opened
      · rename_i star
        cases later with
        | nil => simp [TokenStream.tail,ending]
        | cons u later =>
            have open_ : u.kind ≠ .symbol .rightBracket := fun closing => by
              simp [star,closing,opensBracket] at opened
            simp [TokenStream.tail,open_]
      · rfl

theorem isAt_comma (ended : (kinds ts).head? ≠ some (.symbol .comma)) :
    isAt ⟨ts,.ok eof⟩ (.symbol .comma) = false := by
  rw [← Bool.not_eq_true,isAt_head (closes_ending ending) ts (by simp)]
  exact ended

theorem field_found (plain : opensCall (kinds ts) = false) :
    fieldOrCall sub name ⟨ts,.ok eof⟩ = .ok (.field name,⟨ts,.ok eof⟩) := by
  simp [fieldOrCall,isAt_opensCall (closes_ending ending),plain]

theorem quoted_found (plain : opensCall (kinds ts) = false) :
    quotedField name position ⟨ts,.ok eof⟩ = .ok (.field name,⟨ts,.ok eof⟩) := by
  simp [quotedField,isAt_opensCall (closes_ending ending),plain]

end

section
variable {eof : Token} (ending : eof.kind = .ending) {sub : SubParser} {limit : Nat}
  (deeper : ∀ power, Complete eof (Reads power) limit (sub power))
include deeper

theorem items_complete (distinct : closing ≠ .comma) (expected : Expected) (more : Nat) :
    Complete eof (ReadsItems closing) (min limit more) (items sub closing expected more) := by
  induction more with
  | zero => exact complete_nothing (fun read => read.shorter) limit
  | succ more ih =>
      intro ts ks es rest read same fits
      cases read with
      | last item =>
          obtain ⟨middle,split,found⟩ := deeper 0 _ _ _ _ item same (by omega)
          obtain ⟨t,later,rfl,closed,rest⟩ := kinds_eq_cons.mp split
          exact ⟨later,rest,by rw [items.eq_def]; simp [found,closed,distinct]⟩
      | more item others =>
          obtain ⟨between,split,found⟩ := deeper 0 _ _ _ _ item same (by omega)
          obtain ⟨t,middle,rfl,comma,split⟩ := kinds_eq_cons.mp split
          have := item.shorter
          rw [← same,kinds_length,← split,List.length_cons,kinds_length] at this
          obtain ⟨later,rest,continued⟩ := ih _ _ _ _ others split (by omega)
          exact ⟨later,rest,by rw [items.eq_def]; simp [found,comma,continued]⟩

theorem list_found (read : ReadsItems .rightBracket ks es rest) (same : kinds ts = ks)
    (fits : ts.length ≤ limit) :
    ∃ later, kinds later = rest ∧ list sub ⟨ts,.ok eof⟩ = .ok (.list es,⟨later,.ok eof⟩) := by
  obtain ⟨later,rest,found⟩ := items_complete deeper (by decide) .listEnd _ _ _ _ _ read same
    (Nat.le_min.mpr ⟨fits,Nat.le_refl _⟩)
  exact ⟨later,rest,by simp [list,found]⟩

theorem entry_found (named : key? kind = some key) (read : Reads 0 ks e rest)
    (same : kinds ts = kind :: .symbol .colon :: ks) (fits : ts.length ≤ limit) :
    ∃ later, kinds later = rest ∧ entry sub ⟨ts,.ok eof⟩ = .ok ((key,e),⟨later,.ok eof⟩) := by
  obtain ⟨t,between,rfl,written,split⟩ := kinds_eq_cons.mp same
  obtain ⟨u,middle,rfl,colon,split⟩ := kinds_eq_cons.mp split
  simp only [List.length_cons] at fits
  obtain ⟨later,rest,found⟩ := deeper 0 _ _ _ _ read split (by omega)
  exact ⟨later,rest,by simp [entry_keyed,written,named,expect_found colon,found]⟩

theorem entries_complete (more : Nat) :
    Complete eof ReadsEntries (min limit more) (entries sub more) := by
  induction more with
  | zero => exact complete_nothing (fun read => read.shorter) limit
  | succ more ih =>
      intro ts ks es rest read same fits
      cases read with
      | last named value =>
          obtain ⟨middle,split,found⟩ := entry_found deeper named value same (by omega)
          obtain ⟨t,later,rfl,closed,rest⟩ := kinds_eq_cons.mp split
          exact ⟨later,rest,by rw [entries.eq_def]; simp [found,closed]⟩
      | more named value others =>
          obtain ⟨between,split,found⟩ := entry_found deeper named value same (by omega)
          obtain ⟨t,middle,rfl,comma,split⟩ := kinds_eq_cons.mp split
          have := value.shorter
          have := congrArg List.length same
          have := congrArg List.length split
          simp only [List.length_cons,kinds_length] at *
          obtain ⟨later,rest,continued⟩ := ih _ _ _ _ others split (by omega)
          exact ⟨later,rest,by rw [entries.eq_def]; simp [found,comma,continued]⟩

theorem hash_found (read : ReadsEntries ks es rest) (same : kinds ts = ks)
    (fits : ts.length ≤ limit) :
    ∃ later, kinds later = rest ∧ hash sub ⟨ts,.ok eof⟩ = .ok (.hash es,⟨later,.ok eof⟩) := by
  obtain ⟨later,rest,found⟩ := entries_complete deeper _ _ _ _ _ read same
    (Nat.le_min.mpr ⟨fits,Nat.le_refl _⟩)
  exact ⟨later,rest,by simp [hash,found]⟩

theorem binding_found (read : Reads 0 ks e rest)
    (same : kinds ts = .variable name :: .symbol .assign :: ks) (fits : ts.length ≤ limit) :
    ∃ later, kinds later = rest ∧ binding sub ⟨ts,.ok eof⟩ = .ok ((name,e),⟨later,.ok eof⟩) := by
  obtain ⟨t,between,rfl,written,split⟩ := kinds_eq_cons.mp same
  obtain ⟨u,middle,rfl,assign,split⟩ := kinds_eq_cons.mp split
  simp only [List.length_cons] at fits
  obtain ⟨later,rest,found⟩ := deeper 0 _ _ _ _ read split (by omega)
  exact ⟨later,rest,by simp [binding,written,expect_found assign,found]⟩

include ending in
theorem bindings_complete (more : Nat) :
    Complete eof ReadsBindings (min limit more) (bindings sub more) := by
  induction more with
  | zero => exact complete_nothing (fun read => read.shorter) limit
  | succ more ih =>
      intro ts ks bs rest read same fits
      cases read with
      | last value ended =>
          obtain ⟨later,rfl,found⟩ := binding_found deeper value same (by omega)
          exact ⟨later,rfl,by rw [bindings.eq_def]; simp [found,isAt_comma ending ended]⟩
      | more value others =>
          obtain ⟨between,split,found⟩ := binding_found deeper value same (by omega)
          obtain ⟨t,middle,rfl,comma,split⟩ := kinds_eq_cons.mp split
          have := value.shorter
          have := congrArg List.length same
          have := congrArg List.length split
          simp only [List.length_cons,kinds_length] at *
          obtain ⟨later,rest,continued⟩ := ih _ _ _ _ others split (by omega)
          refine ⟨later,rest,?_⟩
          rw [bindings.eq_def]
          simp [found,isAt,TokenStream.current,comma,continued]

include ending in
theorem letIn_found (names : ReadsBindings ks bs (.identifier "in" :: middle))
    (inner : Reads 0 middle body rest) (same : kinds ts = ks) (fits : ts.length ≤ limit) :
    ∃ later, kinds later = rest ∧ letIn sub ⟨ts,.ok eof⟩ = .ok (.letIn bs body,⟨later,.ok eof⟩) := by
  obtain ⟨between,split,bound⟩ := bindings_complete ending deeper _ _ _ _ _ names same
    (Nat.le_min.mpr ⟨fits,Nat.le_refl _⟩)
  obtain ⟨t,start,rfl,word,split⟩ := kinds_eq_cons.mp split
  have := names.shorter
  have := congrArg List.length same
  have := congrArg List.length split
  simp only [List.length_cons,kinds_length] at *
  obtain ⟨later,rest,found⟩ := deeper 0 _ _ _ _ inner split (by omega)
  exact ⟨later,rest,by simp [letIn,bound,word,found]⟩

include ending in
theorem call_found (name : String) (read : ReadsArguments ks es rest) (same : kinds ts = .symbol .leftParen :: ks)
    (fits : ts.length ≤ limit) :
    ∃ later, kinds later = rest ∧
      fieldOrCall sub name ⟨ts,.ok eof⟩ = .ok (.call name es,⟨later,.ok eof⟩) := by
  obtain ⟨t,start,rfl,paren,split⟩ := kinds_eq_cons.mp same
  have opened : isAt ⟨t :: start,.ok eof⟩ (.symbol .leftParen) = true := by
    simp [isAt,TokenStream.current,paren]
  have := congrArg List.length split
  simp only [List.length_cons,kinds_length] at *
  cases read with
  | none =>
      obtain ⟨u,later,rfl,closed,rest⟩ := kinds_eq_cons.mp split
      refine ⟨later,rest,?_⟩
      simp [fieldOrCall,call,expect_found paren,isAt,TokenStream.current,closed,paren]
  | some plain items =>
      obtain ⟨later,rest,found⟩ := items_complete deeper (by decide) .argumentsEnd start.length
        _ _ _ _ items split (by omega)
      have open_ := isAt_closesCall (closes_ending ending) start
      rw [split,plain] at open_
      exact ⟨later,rest,by simp [fieldOrCall,opened,call,expect_found paren,open_,found]⟩

theorem condition_found (read : Reads 0 ks e (.symbol .rightBracket :: rest)) (same : kinds ts = ks)
    (fits : ts.length ≤ limit) :
    ∃ later, kinds later = rest ∧ condition sub ⟨ts,.ok eof⟩ = .ok (.filter e,⟨later,.ok eof⟩) := by
  obtain ⟨middle,split,found⟩ := deeper 0 _ _ _ _ read same fits
  obtain ⟨t,later,rfl,closed,rest⟩ := kinds_eq_cons.mp split
  exact ⟨later,rest,by simp [condition,found,expect_found closed]⟩

include ending in
theorem operand_complete (t : Token) : Complete eof (ReadsOperand t.kind) limit (operand sub t) := by
  intro ts ks e rest read same fits
  rcases t with ⟨kind,text,position⟩
  cases read with
  | field plain free =>
      rename_i name
      rw [← same] at plain free
      have word : (name == "let" && atVariable ⟨ts,.ok eof⟩) = false := by
        rw [atVariable_opensBinding (closes_ending ending)]
        simpa using free
      exact ⟨ts,same,by simp [operand,word,field_found ending plain]⟩
  | call arguments =>
      rename_i kinds es name
      have word : (name == "let" && atVariable ⟨ts,.ok eof⟩) = false := by
        simp [atVariable_opensBinding (closes_ending ending),same,opensBinding]
      obtain ⟨later,rest,found⟩ := call_found ending deeper name arguments same fits
      exact ⟨later,rest,by simp [operand,word,found]⟩
  | letIn names inner =>
      obtain ⟨later,rest,found⟩ := letIn_found ending deeper names inner same fits
      have word : atVariable ⟨ts,.ok eof⟩ = true := by
        rw [atVariable_opensBinding (closes_ending ending),same]
        cases names <;> rfl
      exact ⟨later,rest,by simp [operand,word,found]⟩
  | quoted plain =>
      rw [← same] at plain
      exact ⟨ts,same,by simp [operand,quoted_found ending plain]⟩
  | rawString => exact ⟨ts,same,rfl⟩
  | literal => exact ⟨ts,same,rfl⟩
  | «variable» => exact ⟨ts,same,rfl⟩
  | current => exact ⟨ts,same,rfl⟩
  | root => exact ⟨ts,same,rfl⟩
  | values => exact ⟨ts,same,rfl⟩
  | not inner =>
      obtain ⟨later,rest,found⟩ := deeper _ _ _ _ _ inner same fits
      exact ⟨later,rest,by simp [operand,found]⟩
  | reference inner =>
      obtain ⟨later,rest,found⟩ := deeper _ _ _ _ _ inner same fits
      exact ⟨later,rest,by simp [operand,found]⟩
  | group inner =>
      obtain ⟨middle,split,found⟩ := deeper _ _ _ _ _ inner same fits
      obtain ⟨u,later,rfl,closed,rest⟩ := kinds_eq_cons.mp split
      exact ⟨later,rest,by simp [operand,found,expect_found closed]⟩
  | hash entries =>
      obtain ⟨later,rest,found⟩ := hash_found deeper entries same fits
      exact ⟨later,rest,by simp [operand,found]⟩
  | list plain items =>
      obtain ⟨later,rest,found⟩ := list_found deeper items same fits
      rw [← same] at plain
      exact ⟨later,rest,by simp [operand,bracket_absent ending plain,found]⟩
  | bracket piece =>
      obtain ⟨later,rest,found⟩ := bracket_found eof piece same
      exact ⟨later,rest,by simp [operand,found]⟩
  | flatten => exact ⟨ts,same,rfl⟩
  | filter condition =>
      obtain ⟨later,rest,found⟩ := condition_found deeper condition same fits
      exact ⟨later,rest,by simp [operand,found]⟩

include ending in
theorem afterDot_complete : Complete eof ReadsSelected limit (afterDot sub) := by
  intro ts ks f rest read same fits
  cases read with
  | field plain =>
      obtain ⟨t,later,rfl,written,rfl⟩ := kinds_eq_cons.mp same
      exact ⟨later,rfl,by simp [afterDot,written,field_found ending plain]⟩
  | call arguments =>
      rename_i kinds es name
      obtain ⟨t,middle,rfl,written,split⟩ := kinds_eq_cons.mp same
      obtain ⟨later,rest,found⟩ := call_found ending deeper name arguments split
        (Nat.le_of_succ_le fits)
      exact ⟨later,rest,by simp [afterDot,written,found]⟩
  | quoted plain =>
      obtain ⟨t,later,rfl,written,rfl⟩ := kinds_eq_cons.mp same
      exact ⟨later,rfl,by simp [afterDot,written,quoted_found ending plain]⟩
  | values =>
      obtain ⟨t,later,rfl,written,rest⟩ := kinds_eq_cons.mp same
      exact ⟨later,rest,by simp [afterDot,written]⟩
  | list items =>
      obtain ⟨t,middle,rfl,written,split⟩ := kinds_eq_cons.mp same
      obtain ⟨later,rest,found⟩ := list_found deeper items split (Nat.le_of_succ_le fits)
      exact ⟨later,rest,by simp [afterDot,written,found]⟩
  | hash entries =>
      obtain ⟨t,middle,rfl,written,split⟩ := kinds_eq_cons.mp same
      obtain ⟨later,rest,found⟩ := hash_found deeper entries split (Nat.le_of_succ_le fits)
      exact ⟨later,rest,by simp [afterDot,written,found]⟩

include ending in
theorem continued_complete (left : Expr) (op : Operator) (position : Position) :
    Complete eof (ReadsContinued left op) limit (continued sub left op position) := by
  intro ts ks e rest read same fits
  cases read with
  | pipe right | or right | and right | compare right =>
      obtain ⟨later,rest,found⟩ := deeper _ _ _ _ _ right same fits
      exact ⟨later,rest,by simp [continued,found]⟩
  | flatten => exact ⟨ts,same,rfl⟩
  | bracket piece =>
      obtain ⟨later,rest,found⟩ := bracket_found eof piece same
      exact ⟨later,rest,by simp [continued,found]⟩
  | filter condition =>
      obtain ⟨later,rest,found⟩ := condition_found deeper condition same fits
      exact ⟨later,rest,by simp [continued,found]⟩
  | dot selected =>
      obtain ⟨later,rest,found⟩ := afterDot_complete ending deeper _ _ _ _ selected same fits
      exact ⟨later,rest,by simp [continued,found]⟩

include ending in
theorem operators_complete (more : Nat) (left : Expr) :
    Complete eof (ReadsOperators power left) (min limit more) (operators sub power more left) := by
  induction more generalizing left with
  | zero =>
      intro ts ks e rest read same fits
      cases List.length_eq_zero_iff.mp (Nat.le_zero.mp (Nat.le_trans fits (Nat.min_le_right _ _)))
      cases same
      cases read
      exact ⟨[],rfl,rfl⟩
  | succ more ih =>
      intro ts ks e rest read same fits
      cases read with
      | done weak =>
          refine ⟨ts,same,?_⟩
          cases ts with
          | nil =>
              simp [operators,ending,Operator.ofKind?]
          | cons t later =>
              simp only [operators,here_found,ok_bind]
              split
              · rename_i op operator
                have := weak op (same ▸ operator)
                rw [if_neg (by omega)]
                rfl
              · rfl
      | more found strong first others =>
          obtain ⟨t,between,rfl,kind,split⟩ := kinds_eq_cons.mp same
          simp only [List.length_cons] at fits
          obtain ⟨middle,split',next⟩ := continued_complete ending deeper _ _ t.position _ _ _ _ first
            split (by omega)
          have := first.shorter
          rw [← split,← split',kinds_length,kinds_length] at this
          obtain ⟨later,rest,continued⟩ := ih _ _ _ _ _ others split' (by omega)
          exact ⟨later,rest,by simp [operators,kind,found,strong,next,continued]⟩

end

theorem expression_complete {eof : Token} (ending : eof.kind = .ending) (depth power : Nat) :
    Complete eof (Reads power) depth (expression depth power) := by
  induction depth generalizing power with
  | zero => exact complete_nothing (fun read => read.shorter) 0
  | succ depth ih =>
      intro ts ks e rest read same fits
      cases read with
      | expression first more =>
          obtain ⟨t,start,rfl,kind,split⟩ := kinds_eq_cons.mp same
          simp only [List.length_cons] at fits
          obtain ⟨middle,split',left⟩ := operand_complete ending ih t _ _ _ _ (kind ▸ first) split
            (by omega)
          have := first.shorter
          rw [← split,← split',kinds_length,kinds_length] at this
          obtain ⟨later,rest,found⟩ := operators_complete ending ih middle.length _ _ _ _ _ more split'
            (by omega)
          exact ⟨later,rest,by simp [expression,left,found]⟩

end Parser
end JsonQuery
