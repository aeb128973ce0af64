import JsonQuery.Proofs.Expr.Reads
import JsonQuery.Proofs.Outcome

namespace JsonQuery
namespace Parser

def kinds (ts : List Token) : List TokenKind := ts.map (·.kind)

@[simp] theorem kinds_nil : kinds [] = [] := rfl
@[simp] theorem kinds_cons (t : Token) (ts : List Token) : kinds (t :: ts) = t.kind :: kinds ts := rfl

-- A parser that succeeds has read what the relation says and stands in the same text.
def Sound (close : Except LexError Token) (R : List TokenKind → α → List TokenKind → Prop)
    (parse : TokenStream → Except ParseError (Parsed α)) : Prop :=
  ∀ ts a after, parse ⟨ts,close⟩ = .ok (a,after) →
    ∃ later, after = ⟨later,close⟩ ∧ R (kinds ts) a (kinds later)

-- What closes a text is its ending or a fault.
def Closes (close : Except LexError Token) : Prop := ∀ t, close = .ok t → t.kind = .ending

section
variable {close : Except LexError Token}

@[simp] theorem here_ended (t : Token) : here ⟨[],.ok t⟩ = .ok t := rfl

@[simp] theorem here_failed (e : LexError) : here ⟨[],.error e⟩ = .error (.lex e) := rfl

theorem here_ok (found : here ⟨ts,close⟩ = .ok t) (closes : Closes close) (real : t.kind ≠ .ending) :
    ∃ later, ts = t :: later := by
  cases ts with
  | nil =>
      cases close with
      | error e => cases found
      | ok u =>
          cases Except.ok.inj found
          exact absurd (closes t rfl) real
  | cons u later =>
      cases Except.ok.inj found
      exact ⟨later,rfl⟩

theorem advance_ok (taken : advance ⟨ts,close⟩ = .ok (t,after)) (closes : Closes close)
    (real : t.kind ≠ .ending) : ∃ later, ts = t :: later ∧ after = ⟨later,close⟩ := by
  obtain ⟨u,found,rest⟩ := bind_ok.mp taken
  obtain ⟨_,_,result⟩ := bind_ok.mp rest
  cases Except.ok.inj result
  obtain ⟨later,rfl⟩ := here_ok found closes real
  exact ⟨later,rfl,rfl⟩

theorem advance_cons (taken : advance ⟨t :: later,close⟩ = .ok (u,after)) :
    u = t ∧ after = ⟨later,close⟩ := by
  obtain ⟨_,found,rest⟩ := bind_ok.mp taken
  obtain ⟨_,_,result⟩ := bind_ok.mp rest
  cases Except.ok.inj result
  exact ⟨(Except.ok.inj found).symm,rfl⟩

theorem expect_ok (taken : expect symbol ⟨ts,close⟩ = .ok (t,after)) (closes : Closes close) :
    ∃ later, kinds ts = .symbol symbol :: kinds later ∧ after = ⟨later,close⟩ := by
  obtain ⟨u,found,rest⟩ := bind_ok.mp taken
  split at rest
  · rename_i matched
    obtain ⟨later,rfl⟩ := here_ok found closes (by simp [matched])
    obtain ⟨_,_,result⟩ := bind_ok.mp rest
    obtain ⟨_,_,result⟩ := bind_ok.mp result
    cases Except.ok.inj result
    exact ⟨later,by simp [matched],rfl⟩
  · cases rest

theorem isAt_head (closes : Closes close) (ts : List Token) (different : kind ≠ .ending) :
    isAt ⟨ts,close⟩ kind = true ↔ (kinds ts).head? = some kind := by
  cases ts with
  | cons t later => simp [isAt,TokenStream.current]
  | nil =>
      cases last : close with
      | error e => simp [isAt,TokenStream.current]
      | ok t => simp [isAt,TokenStream.current,closes t last,Ne.symm different]

theorem opensCall_head (ks : List TokenKind) :
    opensCall ks = true ↔ ks.head? = some (.symbol .leftParen) := by
  unfold opensCall; split <;> simp_all [List.head?_eq_some_iff]

theorem closesCall_head (ks : List TokenKind) :
    closesCall ks = true ↔ ks.head? = some (.symbol .rightParen) := by
  unfold closesCall; split <;> simp_all [List.head?_eq_some_iff]

theorem isAt_opensCall (closes : Closes close) (ts : List Token) :
    isAt ⟨ts,close⟩ (.symbol .leftParen) = opensCall (kinds ts) := by
  rw [Bool.eq_iff_iff,isAt_head closes ts (by simp),opensCall_head]

theorem isAt_closesCall (closes : Closes close) (ts : List Token) :
    isAt ⟨ts,close⟩ (.symbol .rightParen) = closesCall (kinds ts) := by
  rw [Bool.eq_iff_iff,isAt_head closes ts (by simp),closesCall_head]

theorem atVariable_opensBinding (closes : Closes close) (ts : List Token) :
    atVariable ⟨ts,close⟩ = opensBinding (kinds ts) := by
  cases ts with
  | nil =>
      cases last : close with
      | error e => rfl
      | ok t =>
          rcases t with ⟨kind,_,_⟩
          have := closes _ last
          subst this
          rfl
  | cons t later => rcases t with ⟨kind,_,_⟩; cases kind <;> rfl

end

section
variable {close : Except LexError Token} (closes : Closes close)
include closes

theorem slicePart_ok (parsed : slicePart ⟨ts,close⟩ = .ok ((b,t),after)) (real : t.kind ≠ .ending) :
    ∃ later, kinds ts = bound b ++ t.kind :: kinds later ∧ after = ⟨later,close⟩ := by
  obtain ⟨⟨first,s⟩,taken,rest⟩ := bind_ok.mp parsed
  dsimp only at rest
  split at rest
  · rename_i n integer
    obtain ⟨middle,rfl,rfl⟩ := advance_ok taken closes (by simp [integer])
    obtain ⟨⟨second,s⟩,taken,result⟩ := bind_ok.mp rest
    cases Except.ok.inj result
    obtain ⟨later,rfl,rfl⟩ := advance_ok taken closes real
    exact ⟨later,by simp [bound,integer],rfl⟩
  · cases Except.ok.inj rest
    obtain ⟨later,rfl,rfl⟩ := advance_ok taken closes real
    exact ⟨later,rfl,rfl⟩

theorem sliceFrom_sound (start : Option Int) :
    Sound close (fun before piece after =>
      ReadsBracket (bound start ++ .symbol .colon :: before) piece after) (sliceFrom start) := by
  intro ts piece after parsed
  obtain ⟨⟨⟨stop,t⟩,s⟩,taken,rest⟩ := bind_ok.mp parsed
  dsimp only at rest
  split at rest
  · rename_i closing
    cases Except.ok.inj rest
    obtain ⟨later,read,rfl⟩ := slicePart_ok closes taken (by simp [closing])
    exact ⟨later,rfl,by rw [read,closing]; exact .slice⟩
  · rename_i colon
    obtain ⟨middle,read,rfl⟩ := slicePart_ok closes taken (by simp [colon])
    obtain ⟨⟨⟨step,u⟩,s⟩,taken,rest⟩ := bind_ok.mp rest
    dsimp only at rest
    split at rest
    · rename_i closing
      cases Except.ok.inj rest
      obtain ⟨later,more,rfl⟩ := slicePart_ok closes taken (by simp [closing])
      exact ⟨later,rfl,by rw [read,more,colon,closing]; exact .stepped⟩
    · cases rest
    · cases rest
  · cases rest

theorem indexOrSlice_sound (n : Int) :
    Sound close (fun before piece after => ReadsBracket (.integer n :: before) piece after)
      (indexOrSlice n) := by
  intro ts piece after parsed
  obtain ⟨⟨t,s⟩,taken,rest⟩ := bind_ok.mp parsed
  dsimp only at rest
  split at rest
  · rename_i closing
    cases Except.ok.inj rest
    obtain ⟨later,rfl,rfl⟩ := advance_ok taken closes (by simp [closing])
    exact ⟨later,rfl,by rw [kinds_cons,closing]; exact .index⟩
  · rename_i colon
    obtain ⟨middle,rfl,rfl⟩ := advance_ok taken closes (by simp [colon])
    obtain ⟨later,rfl,read⟩ := sliceFrom_sound closes (some n) _ _ _ rest
    exact ⟨later,rfl,by rw [kinds_cons,colon]; exact read⟩
  · cases rest

-- A piece is read, or the bracket opens a list and nothing was taken.
theorem bracket_some (parsed : bracket? ⟨ts,close⟩ = .ok (some (piece,after))) :
    ∃ later, after = ⟨later,close⟩ ∧ ReadsBracket (kinds ts) piece (kinds later) := by
  obtain ⟨t,found,rest⟩ := bind_ok.mp parsed
  split at rest
  · rename_i n integer
    obtain ⟨middle,rfl⟩ := here_ok found closes (by simp [integer])
    obtain ⟨⟨_,s⟩,taken,rest⟩ := bind_ok.mp rest
    obtain ⟨rfl,rfl⟩ := advance_cons taken
    obtain ⟨⟨_,_⟩,parsed,result⟩ := bind_ok.mp rest
    cases Except.ok.inj result
    obtain ⟨later,rfl,read⟩ := indexOrSlice_sound closes n _ _ _ parsed
    exact ⟨later,rfl,by rw [kinds_cons,integer]; exact read⟩
  · rename_i colon
    obtain ⟨middle,rfl⟩ := here_ok found closes (by simp [colon])
    obtain ⟨⟨_,s⟩,taken,rest⟩ := bind_ok.mp rest
    obtain ⟨rfl,rfl⟩ := advance_cons taken
    obtain ⟨⟨_,_⟩,parsed,result⟩ := bind_ok.mp rest
    cases Except.ok.inj result
    obtain ⟨later,rfl,read⟩ := sliceFrom_sound closes none _ _ _ parsed
    exact ⟨later,rfl,by rw [kinds_cons,colon]; exact read⟩
  · rename_i star
    obtain ⟨middle,rfl⟩ := here_ok found closes (by simp [star])
    obtain ⟨following,found,rest⟩ := bind_ok.mp rest
    split at rest
    · rename_i closing
      obtain ⟨later,rfl⟩ := here_ok found closes (by simp [closing])
      obtain ⟨⟨_,s⟩,taken,rest⟩ := bind_ok.mp rest
      obtain ⟨rfl,rfl⟩ := advance_cons taken
      obtain ⟨⟨_,s⟩,taken,result⟩ := bind_ok.mp rest
      obtain ⟨rfl,rfl⟩ := advance_cons taken
      cases Except.ok.inj result
      exact ⟨later,rfl,by rw [kinds_cons,kinds_cons,star,closing]; exact .wildcard⟩
    · cases rest
  · cases rest

theorem bracket_none (parsed : bracket? ⟨ts,close⟩ = .ok none) : opensBracket (kinds ts) = false := by
  obtain ⟨t,found,rest⟩ := bind_ok.mp parsed
  split at rest
  · obtain ⟨_,_,rest⟩ := bind_ok.mp rest
    obtain ⟨_,_,rest⟩ := bind_ok.mp rest
    cases rest
  · obtain ⟨_,_,rest⟩ := bind_ok.mp rest
    obtain ⟨_,_,rest⟩ := bind_ok.mp rest
    cases rest
  · rename_i star
    obtain ⟨middle,rfl⟩ := here_ok found closes (by simp [star])
    obtain ⟨following,found,rest⟩ := bind_ok.mp rest
    split at rest
    · obtain ⟨_,_,rest⟩ := bind_ok.mp rest
      obtain ⟨_,_,rest⟩ := bind_ok.mp rest
      cases rest
    · rename_i different
      cases middle with
      | nil => rw [kinds_cons,star]; rfl
      | cons u later =>
          cases Except.ok.inj found
          rw [kinds_cons,kinds_cons,star]
          unfold opensBracket
          split <;> simp_all
  · rename_i notInteger notColon notStar
    cases ts with
    | nil => rfl
    | cons u later =>
        cases Except.ok.inj found
        rw [kinds_cons]
        unfold opensBracket
        split <;> simp_all

section
variable {sub : SubParser} (deeper : ∀ power, Sound close (Reads power) (sub power))
include deeper

-- One item with what stands behind it: the closing symbol, or a comma and the others.
theorem items_step (parsed : items sub closing expected more ⟨ts,close⟩ = .ok (es,after)) :
    ∃ (e : Expr) (t : Token) (middle : List Token), Reads 0 (kinds ts) e (t.kind :: kinds middle) ∧
      (t.kind = .symbol closing ∧ es = [e] ∧ after = ⟨middle,close⟩ ∨
        t.kind = .symbol .comma ∧ ∃ less others, more = less + 1 ∧ es = e :: others ∧
          items sub closing expected less ⟨middle,close⟩ = .ok (others,after)) := by
  rw [items.eq_def] at parsed
  obtain ⟨⟨e,s⟩,first,rest⟩ := bind_ok.mp parsed
  obtain ⟨between,rfl,read⟩ := deeper 0 _ _ _ first
  obtain ⟨⟨t,s⟩,taken,rest⟩ := bind_ok.mp rest
  dsimp only at rest
  split at rest
  · rename_i comma
    obtain ⟨middle,rfl,rfl⟩ := advance_ok taken closes (by simp [comma])
    split at rest
    · obtain ⟨_,_,rest⟩ := bind_ok.mp rest; cases rest
    · obtain ⟨⟨others,_⟩,later,result⟩ := bind_ok.mp rest
      cases Except.ok.inj result
      exact ⟨e,t,middle,read,.inr ⟨comma,_,others,rfl,rfl,later⟩⟩
  · split at rest
    · rename_i closed
      cases Except.ok.inj rest
      obtain ⟨middle,rfl,rfl⟩ := advance_ok taken closes (by simp [closed])
      exact ⟨e,t,middle,read,.inl ⟨closed,rfl,rfl⟩⟩
    · cases rest

theorem items_sound (closing : Symbol) (expected : Expected) (more : Nat) :
    Sound close (ReadsItems closing) (items sub closing expected more) := by
  induction more with
  | zero =>
      intro ts es after parsed
      obtain ⟨e,t,middle,read,⟨closed,rfl,rfl⟩ | ⟨_,_,_,less,_⟩⟩ := items_step closes deeper parsed
      · exact ⟨middle,rfl,.last (closed ▸ read)⟩
      · cases less
  | succ more ih =>
      intro ts es after parsed
      obtain ⟨e,t,middle,read,⟨closed,rfl,rfl⟩ | ⟨comma,_,others,less,rfl,rest⟩⟩ :=
        items_step closes deeper parsed
      · exact ⟨middle,rfl,.last (closed ▸ read)⟩
      · cases less
        obtain ⟨later,rfl,reads⟩ := ih _ _ _ rest
        exact ⟨later,rfl,.more (comma ▸ read) reads⟩

omit closes deeper in
theorem entry_keyed (s : TokenStream) : entry sub s = advance s >>= fun pair =>
    match key? pair.1.kind with
    | some key => expect .colon pair.2 >>= fun colon => sub 0 colon.2 >>= fun value =>
        .ok ((key,value.1),value.2)
    | none => unexpected pair.1 .hashKey := by
  unfold entry
  congr 1
  funext ⟨t,s⟩
  dsimp only
  cases t.kind <;> rfl

theorem entry_ok (parsed : entry sub ⟨ts,close⟩ = .ok ((key,e),after)) :
    ∃ kind middle later, kinds ts = kind :: .symbol .colon :: middle ∧ key? kind = some key ∧
      after = ⟨later,close⟩ ∧ Reads 0 middle e (kinds later) := by
  rw [entry_keyed] at parsed
  obtain ⟨⟨t,s⟩,taken,rest⟩ := bind_ok.mp parsed
  dsimp only at rest
  split at rest
  · rename_i name named
    obtain ⟨between,rfl,rfl⟩ := advance_ok taken closes (by intro ending; rw [ending] at named; cases named)
    obtain ⟨⟨_,s⟩,colon,rest⟩ := bind_ok.mp rest
    obtain ⟨middle,opened,rfl⟩ := expect_ok colon closes
    obtain ⟨⟨_,_⟩,value,result⟩ := bind_ok.mp rest
    cases Except.ok.inj result
    obtain ⟨later,rfl,read⟩ := deeper 0 _ _ _ value
    exact ⟨t.kind,kinds middle,later,by rw [kinds_cons,opened],named,rfl,read⟩
  · cases rest

theorem entries_step (parsed : entries sub more ⟨ts,close⟩ = .ok (es,after)) :
    ∃ (kind : TokenKind) (key : String) (start : List TokenKind) (e : Expr) (t : Token)
      (middle : List Token), kinds ts = kind :: .symbol .colon :: start ∧ key? kind = some key ∧
      Reads 0 start e (t.kind :: kinds middle) ∧
      (t.kind = .symbol .rightBrace ∧ es = [(key,e)] ∧ after = ⟨middle,close⟩ ∨
        t.kind = .symbol .comma ∧ ∃ less others, more = less + 1 ∧ es = (key,e) :: others ∧
          entries sub less ⟨middle,close⟩ = .ok (others,after)) := by
  rw [entries.eq_def] at parsed
  obtain ⟨⟨⟨key,e⟩,s⟩,first,rest⟩ := bind_ok.mp parsed
  obtain ⟨kind,start,between,opened,named,rfl,read⟩ := entry_ok closes deeper first
  obtain ⟨⟨t,s⟩,taken,rest⟩ := bind_ok.mp rest
  dsimp only at rest
  split at rest
  · rename_i comma
    obtain ⟨middle,rfl,rfl⟩ := advance_ok taken closes (by simp [comma])
    split at rest
    · obtain ⟨_,_,rest⟩ := bind_ok.mp rest; cases rest
    · obtain ⟨⟨others,_⟩,later,result⟩ := bind_ok.mp rest
      cases Except.ok.inj result
      exact ⟨kind,key,start,e,t,middle,opened,named,read,.inr ⟨comma,_,others,rfl,rfl,later⟩⟩
  · split at rest
    · rename_i closed
      cases Except.ok.inj rest
      obtain ⟨middle,rfl,rfl⟩ := advance_ok taken closes (by simp [closed])
      exact ⟨kind,key,start,e,t,middle,opened,named,read,.inl ⟨closed,rfl,rfl⟩⟩
    · cases rest

theorem entries_sound (more : Nat) : Sound close ReadsEntries (entries sub more) := by
  induction more with
  | zero =>
      intro ts es after parsed
      obtain ⟨kind,key,start,e,t,middle,opened,named,read,
        ⟨closed,rfl,rfl⟩ | ⟨_,_,_,less,_⟩⟩ := entries_step closes deeper parsed
      · exact ⟨middle,rfl,opened ▸ .last named (closed ▸ read)⟩
      · cases less
  | succ more ih =>
      intro ts es after parsed
      obtain ⟨kind,key,start,e,t,middle,opened,named,read,
        ⟨closed,rfl,rfl⟩ | ⟨comma,_,others,less,rfl,rest⟩⟩ := entries_step closes deeper parsed
      · exact ⟨middle,rfl,opened ▸ .last named (closed ▸ read)⟩
      · cases less
        obtain ⟨later,rfl,reads⟩ := ih _ _ _ rest
        exact ⟨later,rfl,opened ▸ .more named (comma ▸ read) reads⟩

theorem binding_ok (parsed : binding sub ⟨ts,close⟩ = .ok ((name,e),after)) :
    ∃ middle later, kinds ts = .variable name :: .symbol .assign :: middle ∧
      after = ⟨later,close⟩ ∧ Reads 0 middle e (kinds later) := by
  obtain ⟨⟨t,s⟩,taken,rest⟩ := bind_ok.mp parsed
  dsimp only at rest
  split at rest
  · rename_i bound named
    obtain ⟨between,rfl,rfl⟩ := advance_ok taken closes (by simp [named])
    obtain ⟨⟨_,s⟩,assign,rest⟩ := bind_ok.mp rest
    obtain ⟨middle,opened,rfl⟩ := expect_ok assign closes
    obtain ⟨⟨_,_⟩,value,result⟩ := bind_ok.mp rest
    cases Except.ok.inj result
    obtain ⟨later,rfl,read⟩ := deeper 0 _ _ _ value
    exact ⟨kinds middle,later,by rw [kinds_cons,opened,named],rfl,read⟩
  · cases rest

theorem bindings_step (parsed : bindings sub more ⟨ts,close⟩ = .ok (bs,after)) :
    ∃ (name : String) (start : List TokenKind) (e : Expr) (middle : List Token),
      kinds ts = .variable name :: .symbol .assign :: start ∧ Reads 0 start e (kinds middle) ∧
      ((kinds middle).head? ≠ some (.symbol .comma) ∧ bs = [(name,e)] ∧ after = ⟨middle,close⟩ ∨
        ∃ less others later, kinds middle = .symbol .comma :: kinds later ∧ more = less + 1 ∧
          bs = (name,e) :: others ∧ bindings sub less ⟨later,close⟩ = .ok (others,after)) := by
  rw [bindings.eq_def] at parsed
  obtain ⟨⟨⟨name,e⟩,s⟩,first,rest⟩ := bind_ok.mp parsed
  obtain ⟨start,middle,opened,rfl,read⟩ := binding_ok closes deeper first
  refine ⟨name,start,e,middle,opened,read,?_⟩
  dsimp only at rest
  split at rest
  · rename_i comma
    obtain ⟨later,split⟩ := List.head?_eq_some_iff.mp ((isAt_head closes middle (by simp)).mp comma)
    obtain ⟨⟨t,s⟩,taken,rest⟩ := bind_ok.mp rest
    cases middle with
    | nil => cases split
    | cons u others =>
        obtain ⟨rfl,rfl⟩ := advance_cons taken
        split at rest
        · obtain ⟨_,_,rest⟩ := bind_ok.mp rest; cases rest
        · obtain ⟨⟨more,_⟩,continued,result⟩ := bind_ok.mp rest
          cases Except.ok.inj result
          exact .inr ⟨_,more,others,by rw [split]; simp at split; rw [split.2],rfl,rfl,continued⟩
  · rename_i noComma
    cases Except.ok.inj rest
    exact .inl ⟨fun comma => noComma ((isAt_head closes middle (by simp)).mpr comma),rfl,rfl⟩

theorem bindings_sound (more : Nat) : Sound close ReadsBindings (bindings sub more) := by
  induction more with
  | zero =>
      intro ts bs after parsed
      obtain ⟨name,start,e,middle,opened,read,⟨ended,rfl,rfl⟩ | ⟨_,_,_,_,less,_⟩⟩ :=
        bindings_step closes deeper parsed
      · exact ⟨middle,rfl,opened ▸ .last read ended⟩
      · cases less
  | succ more ih =>
      intro ts bs after parsed
      obtain ⟨name,start,e,middle,opened,read,
        ⟨ended,rfl,rfl⟩ | ⟨_,others,between,comma,less,rfl,rest⟩⟩ := bindings_step closes deeper parsed
      · exact ⟨middle,rfl,opened ▸ .last read ended⟩
      · cases less
        obtain ⟨later,rfl,reads⟩ := ih _ _ _ rest
        exact ⟨later,rfl,opened ▸ .more (comma ▸ read) reads⟩

theorem letIn_sound : Sound close (ReadsOperand (.identifier "let")) (letIn sub) := by
  intro ts e after parsed
  obtain ⟨⟨bs,s⟩,bound,rest⟩ := bind_ok.mp parsed
  obtain ⟨middle,rfl,names⟩ := bindings_sound closes deeper _ _ _ _ bound
  obtain ⟨t,found,rest⟩ := bind_ok.mp rest
  split at rest
  · rename_i word
    obtain ⟨between,rfl⟩ := here_ok found closes (by simp [word])
    obtain ⟨⟨_,s⟩,taken,rest⟩ := bind_ok.mp rest
    obtain ⟨_,rfl⟩ := advance_cons taken
    obtain ⟨⟨body,_⟩,inner,result⟩ := bind_ok.mp rest
    cases Except.ok.inj result
    obtain ⟨later,rfl,read⟩ := deeper 0 _ _ _ inner
    exact ⟨later,rfl,.letIn (by rwa [kinds_cons,word] at names) read⟩
  · cases rest

-- At the parenthesis behind a name.
theorem call_ok (parsed : call sub name ⟨ts,close⟩ = .ok (e,after)) :
    ∃ start es later, kinds ts = .symbol .leftParen :: start ∧ e = .call name es ∧
      after = ⟨later,close⟩ ∧ ReadsArguments start es (kinds later) := by
  obtain ⟨⟨_,s⟩,opened,rest⟩ := bind_ok.mp parsed
  obtain ⟨start,split,rfl⟩ := expect_ok opened closes
  dsimp only at rest
  rw [isAt_closesCall closes] at rest
  split at rest
  · rename_i closed
    obtain ⟨⟨_,s⟩,taken,result⟩ := bind_ok.mp rest
    cases Except.ok.inj result
    cases start with
    | nil => cases closed
    | cons t later =>
        obtain ⟨_,rfl⟩ := advance_cons taken
        have closing : t.kind = .symbol .rightParen := Option.some.inj ((closesCall_head _).mp closed)
        exact ⟨_,[],later,split,rfl,rfl,by rw [kinds_cons,closing]; exact .none⟩
  · rename_i open_
    obtain ⟨⟨es,_⟩,arguments,result⟩ := bind_ok.mp rest
    cases Except.ok.inj result
    obtain ⟨later,rfl,read⟩ := items_sound closes deeper _ _ _ _ _ _ arguments
    exact ⟨_,es,later,split,rfl,rfl,.some (by simpa using open_) read⟩

theorem fieldOrCall_ok (parsed : fieldOrCall sub name ⟨ts,close⟩ = .ok (e,after)) :
    opensCall (kinds ts) = false ∧ e = .field name ∧ after = ⟨ts,close⟩ ∨
      ∃ start es later, kinds ts = .symbol .leftParen :: start ∧ e = .call name es ∧
        after = ⟨later,close⟩ ∧ ReadsArguments start es (kinds later) := by
  unfold fieldOrCall at parsed
  rw [isAt_opensCall closes] at parsed
  split at parsed
  · exact .inr (call_ok closes deeper parsed)
  · rename_i plain
    cases Except.ok.inj parsed
    exact .inl ⟨by simpa using plain,rfl,rfl⟩

omit deeper in
theorem quotedField_ok (parsed : quotedField name position ⟨ts,close⟩ = .ok (e,after)) :
    opensCall (kinds ts) = false ∧ e = .field name ∧ after = ⟨ts,close⟩ := by
  unfold quotedField at parsed
  rw [isAt_opensCall closes] at parsed
  split at parsed
  · cases parsed
  · rename_i plain
    cases Except.ok.inj parsed
    exact ⟨by simpa using plain,rfl,rfl⟩

theorem condition_ok (parsed : condition sub ⟨ts,close⟩ = .ok (piece,after)) :
    ∃ e later, piece = .filter e ∧ after = ⟨later,close⟩ ∧
      Reads 0 (kinds ts) e (.symbol .rightBracket :: kinds later) := by
  obtain ⟨⟨e,s⟩,inner,rest⟩ := bind_ok.mp parsed
  obtain ⟨middle,rfl,read⟩ := deeper 0 _ _ _ inner
  obtain ⟨⟨_,s⟩,closed,result⟩ := bind_ok.mp rest
  obtain ⟨later,split,rfl⟩ := expect_ok closed closes
  cases Except.ok.inj result
  exact ⟨e,later,rfl,rfl,split ▸ read⟩

theorem list_ok (parsed : list sub ⟨ts,close⟩ = .ok (e,after)) :
    ∃ es later, e = .list es ∧ after = ⟨later,close⟩ ∧
      ReadsItems .rightBracket (kinds ts) es (kinds later) := by
  obtain ⟨⟨es,_⟩,items,result⟩ := bind_ok.mp parsed
  cases Except.ok.inj result
  obtain ⟨later,rfl,read⟩ := items_sound closes deeper _ _ _ _ _ _ items
  exact ⟨es,later,rfl,rfl,read⟩

theorem hash_ok (parsed : hash sub ⟨ts,close⟩ = .ok (e,after)) :
    ∃ es later, e = .hash es ∧ after = ⟨later,close⟩ ∧ ReadsEntries (kinds ts) es (kinds later) := by
  obtain ⟨⟨es,_⟩,entries,result⟩ := bind_ok.mp parsed
  cases Except.ok.inj result
  obtain ⟨later,rfl,read⟩ := entries_sound closes deeper _ _ _ _ entries
  exact ⟨es,later,rfl,rfl,read⟩

omit closes in
-- An expression read on its own and put under a node.
theorem nested_ok {make : Expr → Expr}
    (parsed : (sub power ⟨ts,close⟩ >>= fun pair => .ok (make pair.1,pair.2)) = .ok (e,after)) :
    ∃ inner later, e = make inner ∧ after = ⟨later,close⟩ ∧ Reads power (kinds ts) inner (kinds later) := by
  obtain ⟨⟨inner,_⟩,read,result⟩ := bind_ok.mp parsed
  cases Except.ok.inj result
  obtain ⟨later,rfl,reads⟩ := deeper _ _ _ _ read
  exact ⟨inner,later,rfl,rfl,reads⟩

theorem operand_sound (t : Token) : Sound close (ReadsOperand t.kind) (operand sub t) := by
  intro ts e after parsed
  unfold operand at parsed
  split at parsed
  · rename_i name identifier
    rw [identifier]
    rw [atVariable_opensBinding closes] at parsed
    split at parsed
    · rename_i word
      simp only [Bool.and_eq_true,beq_iff_eq] at word
      rw [word.1]
      exact letIn_sound closes deeper _ _ _ parsed
    · rename_i word
      simp only [Bool.and_eq_true,beq_iff_eq,not_and,Bool.not_eq_true] at word
      obtain ⟨plain,rfl,rfl⟩ | ⟨start,es,later,split,rfl,rfl,read⟩ := fieldOrCall_ok closes deeper parsed
      · exact ⟨ts,rfl,.field plain word⟩
      · exact ⟨later,rfl,split ▸ .call read⟩
  · rename_i name quoted
    obtain ⟨plain,rfl,rfl⟩ := quotedField_ok closes parsed
    exact ⟨ts,rfl,quoted ▸ .quoted plain⟩
  · rename_i content raw
    cases Except.ok.inj parsed
    exact ⟨ts,rfl,raw ▸ .rawString⟩
  · rename_i text literal
    cases Except.ok.inj parsed
    exact ⟨ts,rfl,literal ▸ .literal⟩
  · rename_i name named
    cases Except.ok.inj parsed
    exact ⟨ts,rfl,named ▸ .variable⟩
  · rename_i symbol
    cases Except.ok.inj parsed
    exact ⟨ts,rfl,symbol ▸ .current⟩
  · rename_i symbol
    cases Except.ok.inj parsed
    exact ⟨ts,rfl,symbol ▸ .root⟩
  · rename_i symbol
    cases Except.ok.inj parsed
    exact ⟨ts,rfl,symbol ▸ .values⟩
  · rename_i symbol
    obtain ⟨e,later,rfl,rfl,read⟩ := nested_ok deeper parsed
    exact ⟨later,rfl,symbol ▸ .not read⟩
  · rename_i symbol
    obtain ⟨e,later,rfl,rfl,read⟩ := nested_ok deeper parsed
    exact ⟨later,rfl,symbol ▸ .reference read⟩
  · rename_i symbol
    obtain ⟨⟨e,_⟩,inner,rest⟩ := bind_ok.mp parsed
    obtain ⟨middle,rfl,read⟩ := deeper _ _ _ _ inner
    obtain ⟨⟨_,_⟩,closed,result⟩ := bind_ok.mp rest
    obtain ⟨later,split,rfl⟩ := expect_ok closed closes
    cases Except.ok.inj result
    exact ⟨later,rfl,symbol ▸ .group (split ▸ read)⟩
  · rename_i symbol
    obtain ⟨es,later,rfl,rfl,read⟩ := hash_ok closes deeper parsed
    exact ⟨later,rfl,symbol ▸ .hash read⟩
  · rename_i symbol
    obtain ⟨found,opened,rest⟩ := bind_ok.mp parsed
    split at rest
    · cases Except.ok.inj rest
      obtain ⟨later,rfl,read⟩ := bracket_some closes opened
      exact ⟨later,rfl,symbol ▸ .bracket read⟩
    · obtain ⟨es,later,rfl,rfl,read⟩ := list_ok closes deeper rest
      exact ⟨later,rfl,symbol ▸ .list (bracket_none closes opened) read⟩
  · rename_i symbol
    cases Except.ok.inj parsed
    exact ⟨ts,rfl,symbol ▸ .flatten⟩
  · rename_i symbol
    obtain ⟨⟨piece,_⟩,inner,result⟩ := bind_ok.mp parsed
    cases Except.ok.inj result
    obtain ⟨e,later,rfl,rfl,read⟩ := condition_ok closes deeper inner
    exact ⟨later,rfl,symbol ▸ .filter read⟩
  · cases parsed

theorem afterDot_sound : Sound close ReadsSelected (afterDot sub) := by
  intro ts piece after parsed
  obtain ⟨⟨t,s⟩,taken,rest⟩ := bind_ok.mp parsed
  dsimp only at rest
  split at rest
  · rename_i name identifier
    obtain ⟨middle,rfl,rfl⟩ := advance_ok taken closes (by simp [identifier])
    obtain ⟨⟨e,_⟩,selected,result⟩ := bind_ok.mp rest
    cases Except.ok.inj result
    rw [kinds_cons,identifier]
    obtain ⟨plain,rfl,rfl⟩ | ⟨start,es,later,split,rfl,rfl,read⟩ := fieldOrCall_ok closes deeper selected
    · exact ⟨middle,rfl,.field plain⟩
    · exact ⟨later,rfl,split ▸ .call read⟩
  · rename_i name quoted
    obtain ⟨middle,rfl,rfl⟩ := advance_ok taken closes (by simp [quoted])
    obtain ⟨⟨e,_⟩,selected,result⟩ := bind_ok.mp rest
    cases Except.ok.inj result
    obtain ⟨plain,rfl,rfl⟩ := quotedField_ok closes selected
    exact ⟨middle,rfl,by rw [kinds_cons,quoted]; exact .quoted plain⟩
  · rename_i symbol
    obtain ⟨middle,rfl,rfl⟩ := advance_ok taken closes (by simp [symbol])
    cases Except.ok.inj rest
    exact ⟨middle,rfl,by rw [kinds_cons,symbol]; exact .values⟩
  · rename_i symbol
    obtain ⟨middle,rfl,rfl⟩ := advance_ok taken closes (by simp [symbol])
    obtain ⟨⟨e,_⟩,selected,result⟩ := bind_ok.mp rest
    cases Except.ok.inj result
    obtain ⟨es,later,rfl,rfl,read⟩ := list_ok closes deeper selected
    exact ⟨later,rfl,by rw [kinds_cons,symbol]; exact .list read⟩
  · rename_i symbol
    obtain ⟨middle,rfl,rfl⟩ := advance_ok taken closes (by simp [symbol])
    obtain ⟨⟨e,_⟩,selected,result⟩ := bind_ok.mp rest
    cases Except.ok.inj result
    obtain ⟨es,later,rfl,rfl,read⟩ := hash_ok closes deeper selected
    exact ⟨later,rfl,by rw [kinds_cons,symbol]; exact .hash read⟩
  · cases rest

theorem continued_sound (left : Expr) (op : Operator) (position : Position) :
    Sound close (ReadsContinued left op) (continued sub left op position) := by
  intro ts e after parsed
  cases op with
  | pipe =>
      obtain ⟨right,later,rfl,rfl,read⟩ := nested_ok deeper parsed
      exact ⟨later,rfl,.pipe read⟩
  | or =>
      obtain ⟨right,later,rfl,rfl,read⟩ := nested_ok deeper parsed
      exact ⟨later,rfl,.or read⟩
  | and =>
      obtain ⟨right,later,rfl,rfl,read⟩ := nested_ok deeper parsed
      exact ⟨later,rfl,.and read⟩
  | compare op =>
      obtain ⟨right,later,rfl,rfl,read⟩ := nested_ok deeper parsed
      exact ⟨later,rfl,.compare read⟩
  | flatten =>
      cases Except.ok.inj parsed
      exact ⟨ts,rfl,.flatten⟩
  | bracket =>
      obtain ⟨found,opened,rest⟩ := bind_ok.mp parsed
      split at rest
      · cases Except.ok.inj rest
        obtain ⟨later,rfl,read⟩ := bracket_some closes opened
        exact ⟨later,rfl,.bracket read⟩
      · cases rest
  | filter =>
      obtain ⟨⟨piece,_⟩,inner,result⟩ := bind_ok.mp parsed
      cases Except.ok.inj result
      obtain ⟨e,later,rfl,rfl,read⟩ := condition_ok closes deeper inner
      exact ⟨later,rfl,.filter read⟩
  | dot =>
      obtain ⟨⟨piece,_⟩,inner,result⟩ := bind_ok.mp parsed
      cases Except.ok.inj result
      obtain ⟨later,rfl,read⟩ := afterDot_sound closes deeper _ _ _ inner
      exact ⟨later,rfl,.dot read⟩

-- The bound never ends the loop: with no token left there is no operator either.
theorem operators_sound (more : Nat) (fits : ts.length ≤ more)
    (parsed : operators sub power more left ⟨ts,close⟩ = .ok (e,after)) :
    ∃ later, after = ⟨later,close⟩ ∧ ReadsOperators power left (kinds ts) e (kinds later) := by
  induction more generalizing ts left with
  | zero =>
      cases List.length_eq_zero_iff.mp (Nat.le_zero.mp fits)
      cases Except.ok.inj parsed
      exact ⟨[],rfl,.done nofun⟩
  | succ more ih =>
      obtain ⟨t,found,rest⟩ := bind_ok.mp parsed
      split at rest
      · rename_i op operator
        obtain ⟨middle,rfl⟩ := here_ok found closes (by intro ending; rw [ending] at operator; cases operator)
        split at rest
        · rename_i strong
          obtain ⟨⟨_,s⟩,taken,rest⟩ := bind_ok.mp rest
          obtain ⟨_,rfl⟩ := advance_cons taken
          obtain ⟨⟨next,s⟩,first,rest⟩ := bind_ok.mp rest
          obtain ⟨between,rfl,reads⟩ := continued_sound closes deeper _ _ _ _ _ _ first
          have shorter := reads.shorter
          simp only [kinds,List.length_map] at shorter
          simp only [List.length_cons] at fits
          obtain ⟨later,rfl,others⟩ := ih (by omega) rest
          exact ⟨later,rfl,.more operator strong reads others⟩
        · rename_i weak
          cases Except.ok.inj rest
          refine ⟨_,rfl,.done fun other same => ?_⟩
          cases Option.some.inj (operator.symm.trans same)
          omega
      · rename_i none
        cases Except.ok.inj rest
        refine ⟨ts,rfl,.done fun op same => ?_⟩
        cases ts with
        | nil => cases same
        | cons u later =>
            cases Except.ok.inj found
            cases none.symm.trans same

end

theorem expression_sound (depth power : Nat) : Sound close (Reads power) (expression depth power) := by
  induction depth generalizing power with
  | zero =>
      intro ts e after parsed
      obtain ⟨_,_,rest⟩ := bind_ok.mp parsed
      cases rest
  | succ depth ih =>
      intro ts e after parsed
      obtain ⟨⟨t,s⟩,taken,rest⟩ := bind_ok.mp parsed
      obtain ⟨⟨left,s⟩,first,rest⟩ := bind_ok.mp rest
      by_cases ending : t.kind = .ending
      · unfold operand at first
        simp only [ending] at first
        cases first
      · obtain ⟨later,rfl,rfl⟩ := advance_ok taken closes ending
        obtain ⟨middle,rfl,read⟩ := operand_sound closes ih t _ _ _ first
        obtain ⟨after,rfl,more⟩ := operators_sound closes ih _ (Nat.le_refl _) rest
        exact ⟨after,rfl,.expression read more⟩

end
end Parser
end JsonQuery
