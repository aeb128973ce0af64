import JsonQuery.Proofs.Acceptance
import JsonQuery.Proofs.Expr.Primary
import JsonQuery.Proofs.Token.Layout

namespace JsonQuery

-- What stands between two complete operands.
inductive Connective where
  | pipe | or | and
  | compare (c : Comparison)
deriving DecidableEq

namespace Connective

def operator : Connective → Operator
  | .pipe => .pipe
  | .or => .or
  | .and => .and
  | .compare c => .compare c

-- The weaker one is the lower one.
def rank : Connective → Nat
  | .pipe => 0
  | .or => 1
  | .and => 2
  | .compare _ => 3

def compares : Connective → Bool
  | .compare _ => true
  | _ => false

def join : Connective → Expr → Expr → Expr
  | .pipe => .pipe
  | .or => .or
  | .and => .and
  | .compare c => .compare c

theorem power_lt (c d : Connective) : c.operator.power < d.operator.power ↔ c.rank < d.rank := by
  cases c <;> cases d <;> simp [operator,Operator.power,rank]

theorem power_le (c d : Connective) : c.operator.power ≤ d.operator.power ↔ c.rank ≤ d.rank := by
  rw [← Nat.not_lt,power_lt,Nat.not_lt]

theorem power_bounded (c : Connective) : c.operator.power ≤ 5 := by
  cases c <;> simp [operator,Operator.power]

end Connective

-- A primary that is a query of its own, behind some marks of negation.
structure Term where
  nots : Nat
  source : String
  tokens : List Token
  ending : Token
  tree : Expr
  read : tokenize source = .ok (tokens ++ [ending])
  primary : Grammar.Primary (tokens.map (·.kind))
  compiled : Query.compile source = .ok ⟨source,tree⟩

-- Nothing that is a primary is left out: it is a query.
theorem Grammar.Primary.term {source : String} {tokens : List Token} {ending : Token}
    (primary : Grammar.Primary (tokens.map (·.kind))) (read : tokenize source = .ok (tokens ++ [ending]))
    (nots : Nat) : ∃ t : Term, t.nots = nots ∧ t.source = source := by
  obtain ⟨last,ended,same⟩ := tokenize_ok.mp read
  obtain ⟨rfl,_⟩ := List.append_inj' same rfl
  obtain ⟨a,x,atom,accesses,split⟩ := primary
  have derived : Grammar.Expression (a ++ x) := by
    simpa using Grammar.Expression.operations (.primary atom accesses) .none
  obtain ⟨tree,reads⟩ := derived.whole
  rw [← split] at reads
  have compiled := Query.compile_reads.mpr ⟨last,ended,reads⟩
  exact ⟨⟨nots,source,_,ending,tree,read,⟨a,x,atom,accesses,split⟩,compiled⟩,rfl,rfl⟩

-- An operator and what stands behind it.
abbrev Link (α : Type) := Connective × α

def Link.compares (x : Link α) : Bool := x.1.compares

def Term.kinds (t : Term) : List TokenKind :=
  List.replicate t.nots (.symbol .not) ++ t.tokens.map (·.kind)

def symbolWord (s : Symbol) : TokenKind × String := (.symbol s,s.text)

def Term.words (t : Term) : List (TokenKind × String) :=
  List.replicate t.nots (symbolWord .not) ++ t.tokens.map Token.spelled

theorem Term.words_kinds (t : Term) : t.words.map (·.1) = t.kinds := by
  simp [words,kinds,symbolWord,Token.spelled]

theorem Term.tokens_source (t : Term) : (TokenStream.ofText t.source).tokens = t.tokens := by
  obtain ⟨ending,_,same⟩ := tokenize_ok.mp t.read
  exact (List.append_inj' same rfl).1

theorem Term.words_written (t : Term) : ∀ word ∈ t.words, Written word.2.toList word.1 := by
  intro word inside
  rcases List.mem_append.mp inside with inside | inside
  · rw [List.eq_of_mem_replicate inside]
    exact Symbol.written .not
  · obtain ⟨token,present,rfl⟩ := List.mem_map.mp inside
    rw [← t.tokens_source] at present
    exact (TokenStream.ofText_again t.source).1 token present

namespace Chain

def behind (more : List (Link Term)) : List TokenKind :=
  more.flatMap fun x => .symbol x.1.operator.symbol :: x.2.kinds

theorem behind_cons (x : Link Term) (more : List (Link Term)) :
    behind (x :: more) = .symbol x.1.operator.symbol :: (x.2.kinds ++ behind more) := rfl

def kinds (first : Term) (more : List (Link Term)) : List TokenKind := first.kinds ++ behind more

-- Its words, each as it stands in the query it comes from, and one way to write them.
def words (first : Term) (more : List (Link Term)) : List (TokenKind × String) :=
  first.words ++ more.flatMap fun x => symbolWord x.1.operator.symbol :: x.2.words

def text (first : Term) (more : List (Link Term)) : String :=
  " ".intercalate ((words first more).map (·.2))

theorem words_kinds (first : Term) (more : List (Link Term)) :
    (words first more).map (·.1) = kinds first more := by
  simp [words,kinds,behind,Term.words_kinds,List.map_flatMap,symbolWord]

theorem words_written (first : Term) (more : List (Link Term)) :
    ∀ word ∈ words first more, Written word.2.toList word.1 := by
  intro word inside
  rcases List.mem_append.mp inside with inside | inside
  · exact first.words_written word inside
  · obtain ⟨x,_,inside⟩ := List.mem_flatMap.mp inside
    rcases List.mem_cons.mp inside with rfl | inside
    · exact Symbol.written _
    · exact x.2.words_written word inside

-- The weakest of the operators, the last one if there are several, and what stands before
-- and behind it.
def weakest : List (Link α) → Option (List (Link α) × Link α × List (Link α))
  | [] => none
  | x :: more =>
    match weakest more with
    | none => some ([],x,[])
    | some (before,y,after) =>
      if x.1.rank < y.1.rank then some ([],x,more) else some (x :: before,y,after)

theorem weakest_none : {more : List (Link α)} → weakest more = none → more = []
  | [], _ => rfl
  | x :: more, absent => by
      unfold weakest at absent
      split at absent
      · cases absent
      · split at absent <;> cases absent

theorem weakest_some {more : List (Link α)} (found : weakest more = some (before,x,after)) :
    more = before ++ x :: after ∧ (∀ y ∈ before, x.1.rank ≤ y.1.rank) ∧ ∀ y ∈ after, x.1.rank < y.1.rank := by
  induction more generalizing before x after with
  | nil => cases found
  | cons first more ih =>
      unfold weakest at found
      split at found
      · rename_i absent
        cases found
        cases weakest_none absent
        exact ⟨rfl,nofun,nofun⟩
      · rename_i before' other after' behind
        obtain ⟨rfl,earlier,later⟩ := ih behind
        split at found
        · rename_i weaker
          cases found
          refine ⟨rfl,nofun,fun y inside => ?_⟩
          rcases List.mem_append.mp inside with inside | inside
          · exact Nat.lt_of_lt_of_le weaker (earlier y inside)
          · rcases List.mem_cons.mp inside with rfl | inside
            · exact weaker
            · exact Nat.lt_trans weaker (later y inside)
        · rename_i stronger
          cases found
          exact ⟨rfl,List.forall_mem_cons.mpr ⟨Nat.le_of_not_lt stronger,earlier⟩,later⟩

-- The tree of operands that hold together: its root is the weakest operator.
def grouped (first : Expr) (more : List (Link Expr)) : Expr :=
  match _found : weakest more with
  | none => first
  | some (before,(c,e),after) => c.join (grouped first before) (grouped e after)
termination_by more.length
decreasing_by
  all_goals
    obtain ⟨rfl,_⟩ := weakest_some _found
    simp only [List.length_append,List.length_cons]
    omega

theorem grouped_some {more : List (Link Expr)} (found : weakest more = some (before,(c,e),after)) :
    grouped first more = c.join (grouped first before) (grouped e after) := by
  rw [grouped]
  split
  · rename_i absent
    cases absent.symm.trans found
  · rename_i same
    cases same.symm.trans found
    rfl

theorem grouped_nil (e : Expr) : grouped e [] = e := by
  rw [grouped]
  rfl

theorem grouped_single (e f : Expr) (c : Connective) : grouped e [(c,f)] = c.join e f := by
  have found : weakest [(c,f)] = some ([],(c,f),[]) := rfl
  rw [grouped_some found,grouped_nil,grouped_nil]

def joined (operands : Expr × List (Link Expr)) : Expr := grouped operands.1 operands.2

-- From the left, a mark of negation takes all comparisons behind it, and what it makes of
-- them is one operand.
def settled : Nat → Expr → List (Link Term) → Expr × List (Link Expr)
  | 0, e, [] => (e,[])
  | 0, e, (c,t) :: more =>
    let others := settled t.nots t.tree more
    (e,(c,others.1) :: others.2)
  | nots + 1, e, more =>
    settled 0 (.not (joined (settled nots e (more.takeWhile Link.compares))))
      (more.dropWhile Link.compares)
termination_by nots _ more => (more.length,nots)
decreasing_by
  · simp [Prod.lex_def]
  · have taken : (more.takeWhile Link.compares).length ≤ more.length := (List.takeWhile_prefix _).length_le
    simp only [Prod.lex_def]
    omega
  · have left : (more.dropWhile Link.compares).length ≤ more.length := (List.dropWhile_suffix _).length_le
    simp only [Prod.lex_def]
    omega

theorem settled_connectives (nots : Nat) (e : Expr) (more : List (Link Term)) :
    ∀ x ∈ (settled nots e more).2, ∃ y ∈ more, y.1 = x.1 := by
  induction nots, e, more using settled.induct with
  | case1 e => simp [settled]
  | case2 e c t more ih =>
      simp only [settled,List.forall_mem_cons]
      refine ⟨⟨_,List.mem_cons_self,rfl⟩,fun x inside => ?_⟩
      obtain ⟨y,present,same⟩ := ih x inside
      exact ⟨y,List.mem_cons_of_mem _ present,same⟩
  | case3 nots e more _ ih =>
      intro x inside
      rw [settled] at inside
      obtain ⟨y,present,same⟩ := ih x inside
      exact ⟨y,(List.dropWhile_sublist _).subset present,same⟩

-- The tree of a chain: what the marks take first, then the operators by their strength.
def tree (first : Term) (more : List (Link Term)) : Expr :=
  joined (settled first.nots first.tree more)

end Chain
end JsonQuery
