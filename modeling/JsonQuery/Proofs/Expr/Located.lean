import JsonQuery.Proofs.Expr.Lookahead
import JsonQuery.Proofs.Expr.Uniform
import JsonQuery.Proofs.Token.Written

namespace JsonQuery

-- Every token of a text, the ending among them when no fault comes before it.
def TokenStream.all (s : TokenStream) : List Token :=
  s.tokens ++ match s.ending with
    | .ok t => [t]
    | .error _ => []

-- There is a text of these tokens.
def Spelled (ks : List TokenKind) : Prop := ∀ k ∈ ks, ∃ text : String, Written text.toList k

theorem Spelled.append (first : Spelled ks) (second : Spelled ks') : Spelled (ks ++ ks') :=
  fun k inside => (List.mem_append.mp inside).elim (first k) (second k)

theorem Spelled.cons (first : Written text kind) (others : Spelled ks) : Spelled (kind :: ks) :=
  List.forall_mem_cons.mpr ⟨⟨String.ofList text,by rwa [String.toList_ofList]⟩,others⟩

theorem Spelled.symbols (ss : List Symbol) : Spelled (ss.map .symbol) := by
  intro k inside
  obtain ⟨s,_,rfl⟩ := List.mem_map.mp inside
  exact ⟨s.text,s.written⟩

namespace Parser

open Grammar

theorem kinds_append (ts ts' : List Token) : kinds (ts ++ ts') = kinds ts ++ kinds ts' := List.map_append

def Starts (R : List TokenKind → α → List TokenKind → Prop) (ks : List TokenKind) : Prop :=
  ∃ a rest, R ks a rest

-- A token that cannot stand where it does, while what is in front of it can be completed.
inductive Located (starts phrase : List TokenKind → Prop) : List Token → TokenKind → Position → Prop where
  | stands (t : Token) (after : List Token) (refused : ∀ later, ¬ starts (kinds before ++ t.kind :: later))
      (spelled : Spelled z) (completed : phrase (kinds before ++ z)) :
      Located starts phrase (before ++ t :: after) t.kind t.position

section
variable {close : Except LexError Token} {found : TokenKind} {expected : Expected} {position : Position}

theorem here_raised {f : Token → Except ParseError α} (raised :
    (here s >>= f) = .error (.unexpected found expected position)) :
    ∃ t, here s = .ok t ∧ f t = .error (.unexpected found expected position) := by
  rcases bind_error.mp raised with first | later
  · unfold here at first
    cases seen : s.current <;> rw [seen] at first <;> cases first
  · exact later

theorem advance_raised {f : Parsed Token → Except ParseError α} (raised :
    (advance s >>= f) = .error (.unexpected found expected position)) :
    ∃ t, here s = .ok t ∧ f (t,s.tail) = .error (.unexpected found expected position) := by
  unfold advance at raised
  rw [bind_assoc] at raised
  obtain ⟨t,seen,raised⟩ := here_raised raised
  rw [bind_assoc] at raised
  obtain ⟨_,_,raised⟩ := here_raised raised
  exact ⟨t,seen,raised⟩

theorem here_all (seen : here ⟨ts,close⟩ = .ok t) :
    ∃ after, (TokenStream.mk ts close).all = t :: after := by
  cases ts with
  | nil =>
      cases close with
      | error fault => cases seen
      | ok last => cases Except.ok.inj seen; exact ⟨[],rfl⟩
  | cons first later => cases Except.ok.inj seen; exact ⟨_,rfl⟩

theorem all_append (ts ts' : List Token) (close : Except LexError Token) :
    (TokenStream.mk (ts ++ ts') close).all = ts ++ (TokenStream.mk ts' close).all :=
  List.append_assoc ..

theorem ahead_all (closes : Closes close) (ts : List Token) :
    ahead (kinds (TokenStream.mk ts close).all) = ahead (kinds ts) := by
  cases ts with
  | nil =>
      cases last : close with
      | error fault => rfl
      | ok t => exact closes t last
  | cons first later => rfl

theorem here_ahead (closes : Closes close) (seen : here ⟨ts,close⟩ = .ok t) : ahead (kinds ts) = t.kind := by
  obtain ⟨after,split⟩ := here_all seen
  rw [← ahead_all closes,split]
  rfl

section
variable {starts starts' phrase phrase' : List TokenKind → Prop}

theorem Located.front {all : List Token} (located : Located starts' phrase' all found position)
    (inner : ∀ ks, starts ks → starts' ks)
    (outer : ∀ y, phrase' y → ∃ z, Spelled z ∧ phrase (y ++ z)) : Located starts phrase all found position := by
  cases located with
  | stands t after refused spelled completed =>
      obtain ⟨z,closed,whole⟩ := outer _ completed
      rw [List.append_assoc] at whole
      exact .stands t after (fun later start => refused later (inner _ start)) (spelled.append closed) whole

-- The same fault seen from where the reading began.
theorem Located.behind (closes : Closes close) (taken : List Token)
    (located : Located starts' phrase' (TokenStream.mk ts close).all found position)
    (inner : ∀ ks, ahead ks = ahead (kinds ts) → starts (kinds taken ++ ks) → starts' ks)
    (outer : ∀ y, phrase' y → phrase (kinds taken ++ y)) :
    Located starts phrase (TokenStream.mk (taken ++ ts) close).all found position := by
  rw [all_append]
  rw [← ahead_all closes] at inner
  generalize (TokenStream.mk ts close).all = all at located inner
  cases located with
  | @stands before z t after refused spelled completed =>
      rw [← List.append_assoc]
      refine .stands t after (fun later start => refused later (inner _ ?_ ?_)) spelled ?_
      · cases before <;> rfl
      · rwa [kinds_append,List.append_assoc] at start
      · rw [kinds_append,List.append_assoc]
        exact outer _ completed

theorem Located.map (closes : Closes close)
    (located : Located starts' phrase' (TokenStream.mk ts close).all found position)
    (inner : ∀ ks, ahead ks = ahead (kinds ts) → starts ks → starts' ks)
    (outer : ∀ y, phrase' y → phrase y) :
    Located starts phrase (TokenStream.mk ts close).all found position :=
  located.behind closes [] inner outer

theorem Located.beyond (closes : Closes close) (taken : List Token) (kind : t.kind = k)
    (located : Located starts' phrase' (TokenStream.mk ts close).all found position)
    (inner : ∀ ks, ahead ks = ahead (kinds ts) → starts (kinds taken ++ k :: ks) → starts' ks)
    (outer : ∀ y, phrase' y → phrase (kinds taken ++ k :: y)) :
    Located starts phrase (TokenStream.mk (taken ++ t :: ts) close).all found position := by
  subst kind
  rw [List.append_cons]
  refine located.behind closes (taken ++ [t]) ?_ ?_
  · simpa [kinds_append] using inner
  · simpa [kinds_append] using outer

theorem Located.next (closes : Closes close) (kind : t.kind = k)
    (located : Located starts' phrase' (TokenStream.mk ts close).all found position)
    (inner : ∀ ks, ahead ks = ahead (kinds ts) → starts (k :: ks) → starts' ks)
    (outer : ∀ y, phrase' y → phrase (k :: y)) :
    Located starts phrase (TokenStream.mk (t :: ts) close).all found position :=
  located.beyond closes [] kind inner outer

-- Refused where it was looked at, behind the tokens taken before.
theorem Located.refused (taken : List Token) (seen : here ⟨ts,close⟩ = .ok t)
    (raised : (unexpected t expected' : Except ParseError α) = .error (.unexpected found expected position))
    (refused : ∀ later, ¬ starts (kinds taken ++ t.kind :: later))
    (completed : ∃ z, Spelled z ∧ phrase (kinds taken ++ z)) :
    Located starts phrase (TokenStream.mk (taken ++ ts) close).all found position := by
  obtain ⟨after,split⟩ := here_all seen
  obtain ⟨z,spelled,whole⟩ := completed
  cases raised
  rw [all_append,split]
  exact .stands t after refused spelled whole

end

theorem Sound.taken {R : List TokenKind → α → List TokenKind → Prop} (sound : Sound close R parse)
    (forward : Uniform Eq V (Remains · · ts) parse) (parsed : parse ⟨ts,close⟩ = .ok (a,after)) :
    ∃ taken later, ts = taken ++ later ∧ after = ⟨later,close⟩ ∧
      R (kinds taken ++ kinds later) a (kinds later) := by
  obtain ⟨later,rfl,read⟩ := sound _ _ _ parsed
  obtain ⟨taken,rfl⟩ := forward.remains parsed
  exact ⟨taken,later,rfl,rfl,by rwa [kinds_append] at read⟩

end

theorem bound_split (plain : b = none → ∀ n, k ≠ .integer n)
    (same : bound b ++ k :: ks = bound b' ++ .symbol s :: ks') : b = b' ∧ k = .symbol s ∧ ks = ks' := by
  cases b with
  | none =>
      cases b' with
      | none => exact ⟨rfl,List.cons.inj same⟩
      | some m => exact absurd (List.cons.inj same).1 (plain rfl m)
  | some n =>
      cases b' with
      | none => exact nomatch (List.cons.inj same).1
      | some m => cases same; exact ⟨rfl,rfl,rfl⟩

theorem bound_symbol (same : bound b ++ .symbol s :: ks = bound b' ++ .symbol s' :: ks') :
    s = s' ∧ ks = ks' := by
  obtain ⟨_,symbol,rest⟩ := bound_split (k := .symbol s) (fun _ _ integer => nomatch integer) same
  exact ⟨TokenKind.symbol.inj symbol,rest⟩

-- Behind the first colon a slice has one part or two.
theorem ReadsBracket.sliced (read : ReadsBracket (bound start ++ .symbol .colon :: ks) f rest) :
    (∃ stop, ks = bound stop ++ .symbol .rightBracket :: rest) ∨ ∃ stop step, ks =
      bound stop ++ .symbol .colon :: (bound step ++ .symbol .rightBracket :: rest) := by
  generalize whole : bound start ++ .symbol .colon :: ks = all at read
  cases read with
  | @index n =>
      replace whole : bound start ++ .symbol .colon :: ks = bound (some n) ++ _ := whole
      cases (bound_symbol whole).1
  | slice => exact .inl ⟨_,(bound_symbol whole).2⟩
  | stepped => exact .inr ⟨_,_,(bound_symbol whole).2⟩
  | wildcard => cases start <;> cases whole

theorem ReadsBracket.indexed (read : ReadsBracket (.integer n :: k :: ks) f rest) :
    k = .symbol .rightBracket ∨ k = .symbol .colon := by
  generalize whole : TokenKind.integer n :: k :: ks = all at read
  cases read with
  | @index m =>
      replace whole : bound (some n) ++ k :: ks = bound (some m) ++ _ := whole
      exact .inl (bound_split (b := some n) nofun whole).2.1
  | slice => exact .inr (bound_split (b := some n) nofun whole).2.1
  | stepped => exact .inr (bound_split (b := some n) nofun whole).2.1
  | wildcard => cases whole

theorem opensBracket_first (opens : opensBracket [ahead ks] = true) : opensBracket ks = true := by
  cases ks with
  | nil => cases opens
  | cons k later =>
      unfold opensBracket at opens ⊢
      split at opens
      · rename_i same; cases same; rfl
      · rename_i same; cases same; rfl
      · rename_i same; cases same
      · cases opens

-- A star in brackets would be a list of one too; the others are told by the first token.
theorem ReadsBracket.listed (piece : ReadsBracket ks f rest) :
    Starts (ReadsItems .rightBracket) ks ∨ opensBracket [ahead ks] = true := by
  cases piece with
  | index => exact .inr rfl
  | @slice start => cases start <;> exact .inr rfl
  | @stepped start => cases start <;> exact .inr rfl
  | wildcard => exact .inl ⟨_,_,.last (.expression .values (.done nofun))⟩

section
variable {close : Except LexError Token} (closes : Closes close) {found : TokenKind}
  {expected : Expected} {position : Position}
include closes

theorem slicePart_raised {f : Parsed (Option Int × Token) → Except ParseError α} (raised :
    (slicePart ⟨ts,close⟩ >>= f) = .error (.unexpected found expected position)) :
    ∃ b t taken later, ts = taken ++ later ∧ kinds taken = bound b ∧
      (b = none → ∀ n, t.kind ≠ .integer n) ∧ here ⟨later,close⟩ = .ok t ∧
      f ((b,t),⟨later.tail,close⟩) = .error (.unexpected found expected position) := by
  unfold slicePart at raised
  rw [bind_assoc] at raised
  obtain ⟨t,seen,raised⟩ := advance_raised raised
  dsimp only at raised
  split at raised
  · rename_i n integer
    obtain ⟨later,rfl⟩ := here_ok seen closes (by simp [integer])
    rw [bind_assoc] at raised
    obtain ⟨u,next,raised⟩ := advance_raised raised
    exact ⟨some n,u,[t],later,rfl,by simp [bound,integer],nofun,next,raised⟩
  · rename_i other
    exact ⟨none,t,[],ts,rfl,rfl,fun _ n integer => other n integer,seen,raised⟩

theorem sliceFrom_located (start : Option Int)
    (raised : sliceFrom start ⟨ts,close⟩ = .error (.unexpected found expected position)) :
    Located (fun ks => Starts ReadsBracket (bound start ++ .symbol .colon :: ks))
      (fun y => Bracket (.symbol .leftBracket :: (bound start ++ .symbol .colon :: y)))
      (TokenStream.mk ts close).all found position := by
  obtain ⟨stop,t,taken,later,rfl,split,plain,seen,raised⟩ := slicePart_raised closes raised
  dsimp only at raised
  split at raised
  · cases raised
  · rename_i colon
    obtain ⟨middle,rfl⟩ := here_ok seen closes (by simp [colon])
    obtain ⟨step,u,taken',later,rfl,split',plain',seen',raised⟩ := slicePart_raised closes raised
    dsimp only at raised
    have front : kinds (taken ++ t :: taken') = bound stop ++ .symbol .colon :: bound step := by
      rw [kinds_append,kinds_cons,split,split',colon]
    have all : taken ++ t :: (taken' ++ later) = (taken ++ t :: taken') ++ later := by simp
    rw [all]
    split at raised
    · cases raised
    · cases raised
    · rename_i notClosing _
      refine .refused _ seen' raised ?_ ⟨_,.symbols [.rightBracket],?_⟩
      · rintro ks ⟨f,rest,read⟩
        rw [front,List.append_assoc,List.cons_append] at read
        rcases read.sliced with ⟨stop',same⟩ | ⟨stop',step',same⟩
        · cases (bound_symbol same).1
        · exact notClosing (bound_split plain' (bound_symbol same).2).2.1
      · rw [front,List.append_assoc,List.cons_append]
        exact .stepped
  · rename_i notClosing notColon
    refine .refused _ seen raised ?_ ⟨_,.symbols [.rightBracket],?_⟩
    · rintro ks ⟨f,rest,read⟩
      rw [split] at read
      rcases read.sliced with ⟨stop',same⟩ | ⟨stop',step',same⟩
      · exact notClosing (bound_split plain same).2.1
      · exact notColon (bound_split plain same).2.1
    · rw [split]
      exact .slice

theorem indexOrSlice_located (n : Int)
    (raised : indexOrSlice n ⟨ts,close⟩ = .error (.unexpected found expected position)) :
    Located (fun ks => Starts ReadsBracket (.integer n :: ks))
      (fun y => Bracket (.symbol .leftBracket :: .integer n :: y))
      (TokenStream.mk ts close).all found position := by
  obtain ⟨t,seen,raised⟩ := advance_raised raised
  dsimp only at raised
  split at raised
  · cases raised
  · rename_i colon
    obtain ⟨later,rfl⟩ := here_ok seen closes (by simp [colon])
    exact (sliceFrom_located closes (some n) raised).next closes colon (fun _ _ start => start)
      fun _ bracket => bracket
  · rename_i notClosing notColon
    refine .refused [] seen raised ?_ ⟨_,.symbols [.rightBracket],.index⟩
    rintro ks ⟨f,rest,read⟩
    rcases read.indexed with closing | colon
    · exact notClosing closing
    · exact notColon colon

-- What is refused behind an opening bracket has begun as an index or a slice.
theorem bracket_located
    (raised : bracket? ⟨ts,close⟩ = .error (.unexpected found expected position)) :
    opensBracket [ahead (kinds ts)] = true ∧ Located (Starts ReadsBracket)
      (fun y => Bracket (.symbol .leftBracket :: y)) (TokenStream.mk ts close).all found position := by
  obtain ⟨t,seen,raised⟩ := here_raised raised
  rw [here_ahead closes seen]
  split at raised
  · rename_i n integer
    obtain ⟨later,rfl⟩ := here_ok seen closes (by simp [integer])
    obtain ⟨_,_,raised⟩ := advance_raised raised
    exact ⟨by rw [integer]; rfl,(indexOrSlice_located closes n (made_raised raised)).next closes integer
      (fun _ _ start => start) fun _ bracket => bracket⟩
  · rename_i colon
    obtain ⟨later,rfl⟩ := here_ok seen closes (by simp [colon])
    obtain ⟨_,_,raised⟩ := advance_raised raised
    exact ⟨by rw [colon]; rfl,(sliceFrom_located closes none (made_raised raised)).next closes colon
      (fun _ _ start => start) fun _ bracket => bracket⟩
  · obtain ⟨_,_,raised⟩ := here_raised raised
    split at raised
    · obtain ⟨_,_,raised⟩ := advance_raised raised
      obtain ⟨_,_,absent⟩ := advance_raised raised
      cases absent
    · cases raised
  · cases raised

end

end Parser
end JsonQuery
