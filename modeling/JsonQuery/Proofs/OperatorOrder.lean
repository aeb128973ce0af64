import JsonQuery.Proofs.Expr.Chain

namespace JsonQuery

open JsonQuery.Parser Grammar

theorem Connective.found (c : Connective) : Operator.ofKind? (.symbol c.operator.symbol) = some c.operator :=
  Operator.ofKind?_some.mpr rfl

theorem Connective.compares_iff (c : Connective) : c.compares = true ↔ Operator.notPower < c.operator.power := by
  cases c <;> simp [compares,operator,Operator.power,Operator.notPower]

theorem Connective.continued {c : Connective} (right : Reads c.operator.power ks e rest) (left : Expr) :
    ReadsContinued left c.operator ks (c.join left e) rest := by
  cases c with
  | pipe => exact .pipe right
  | or => exact .or right
  | and => exact .and right
  | compare => exact .compare right

-- What the operators behind make of e, they make of the text.
def Stands (e : Expr) (ks r : List TokenKind) : Prop :=
  ∀ power t rest, power ≤ 5 → ReadsOperators power e r t rest → Reads power ks t rest

-- Operands and operators in the order of the text.
inductive Strung : Expr → List (Link Expr) → List TokenKind → List TokenKind → Prop where
  | last (stands : Stands e ks r) : Strung e [] ks r
  | link (stands : Stands e ks (.symbol c.operator.symbol :: later)) (others : Strung f more later r) :
      Strung e ((c,f) :: more) ks r

theorem Strung.split (strung : Strung e (before ++ (c,f) :: after) ks r) :
    ∃ later, Strung e before ks (.symbol c.operator.symbol :: later) ∧ Strung f after later r := by
  induction before generalizing e ks with
  | nil =>
      cases strung with
      | link stands others => exact ⟨_,.last stands,others⟩
  | cons x before ih =>
      cases strung with
      | link stands others =>
          obtain ⟨later,first,second⟩ := ih others
          exact ⟨later,.link stands first,second⟩

theorem Connective.weak {c d : Connective} (weaker : c.rank ≤ d.rank) (later : List TokenKind) :
    Weak d.operator.power (.symbol c.operator.symbol :: later) := by
  intro op same
  cases c.found.symm.trans same
  exact (power_le c d).mpr weaker

-- The root is the weakest operator: its left side is complete before it, and its right side
-- takes all that is left, which is stronger.
theorem Strung.reads (strung : Strung e more ks r) (bounded : power ≤ 5)
    (strong : ∀ x ∈ more, power < x.1.operator.power) (weak : ∀ x ∈ more, Weak x.1.operator.power r)
    (loop : ReadsOperators power (Chain.grouped e more) r t rest) : Reads power ks t rest := by
  induction e, more using Chain.grouped.induct generalizing ks r power t rest with
  | case1 e more absent =>
      cases Chain.weakest_none absent
      cases strung with
      | last stands =>
          rw [Chain.grouped] at loop
          exact stands _ _ _ bounded loop
  | case2 e more before c f after found ihBefore ihAfter =>
      rw [Chain.grouped_some found] at loop
      obtain ⟨rfl,weaker,stronger⟩ := Chain.weakest_some found
      obtain ⟨later,first,second⟩ := strung.split
      simp only [List.mem_append,List.mem_cons] at strong weak
      have right : Reads c.operator.power later (Chain.grouped f after) r :=
        ihAfter second c.power_bounded (fun x inside => (Connective.power_lt _ _).mpr (stronger x inside))
          (fun x inside => weak x (.inr (.inr inside))) (.done (weak (c,f) (.inr (.inl rfl))))
      refine ihBefore first bounded (fun x inside => strong x (.inl inside))
        (fun x inside => Connective.weak (weaker x inside) later) ?_
      exact .more c.found (strong (c,f) (.inr (.inl rfl))) (Connective.continued right _) loop

theorem Term.stands (term : Term) (follows : Grammar.Follows r) : Stands term.tree (term.tokens.map (·.kind) ++ r) r := by
  obtain ⟨ending,ended,reads⟩ := Query.compile_reads.mp term.compiled
  rw [term.tokens_source] at reads
  exact fun _ _ _ bounded behind => term.primary.carried reads follows bounded behind

namespace Chain

theorem behind_follows (more : List (Link Term)) (follows : Grammar.Follows r) :
    Grammar.Follows (behind more ++ r) := by
  cases more with
  | nil => exact follows
  | cons x more => exact Continues.follows (.inr ⟨x.1.operator,_,rfl⟩) follows

-- Behind the comparisons that a mark takes there is nothing that it would take.
theorem left_weak (more : List (Link Term)) (weak : Weak Operator.notPower r) :
    Weak Operator.notPower (behind (more.dropWhile Link.compares) ++ r) := by
  cases left : more.dropWhile Link.compares with
  | nil => exact weak
  | cons x others =>
      have other := List.head?_dropWhile_not Link.compares more
      rw [left] at other
      intro op same
      cases x.1.found.symm.trans same
      exact Nat.le_of_not_lt fun strong => by simp [Link.compares,x.1.compares_iff.mpr strong] at other

theorem settled_strung (nots : Nat) (e : Expr) (more : List (Link Term)) (follows : Grammar.Follows r)
    (weak : Weak Operator.notPower r) (stands : Stands e ks (behind more ++ r)) :
    Strung (settled nots e more).1 (settled nots e more).2 (List.replicate nots (.symbol .not) ++ ks) r := by
  induction nots, e, more using settled.induct generalizing ks r with
  | case1 e =>
      rw [settled]
      exact .last stands
  | case2 e c term more ih =>
      have next := ih follows weak (term.stands (behind_follows more follows))
      rw [← List.append_assoc] at next
      rw [behind_cons,List.cons_append,List.append_assoc] at stands
      rw [settled]
      exact .link stands next
  | case3 nots e more ihTaken ihLeft =>
      let taken := more.takeWhile Link.compares
      let left := more.dropWhile Link.compares
      have whole : behind more = behind taken ++ behind left := by
        rw [behind,behind,behind,← List.flatMap_append,List.takeWhile_append_dropWhile]
      rw [whole,List.append_assoc] at stands
      have weaker : Weak Operator.notPower (behind left ++ r) := left_weak more weak
      have strung := ihTaken (behind_follows left follows) weaker stands
      have strong : ∀ x ∈ (settled nots e taken).2, Operator.notPower < x.1.operator.power := by
        intro x inside
        obtain ⟨y,present,same⟩ := settled_connectives nots e taken x inside
        rw [← same]
        exact y.1.compares_iff.mp (List.mem_takeWhile_imp (p := Link.compares) present)
      have negated : Stands (.not (joined (settled nots e taken)))
          (.symbol .not :: (List.replicate nots (.symbol .not) ++ ks)) (behind left ++ r) := by
        intro power t rest bounded loop
        refine .expression (.not ?_) loop
        exact strung.reads (by decide) strong
          (fun x inside op same => Nat.le_trans (weaker op same) (Nat.le_of_lt (strong x inside))) (.done weaker)
      rw [settled]
      exact ihLeft follows weak negated

theorem reads (first : Term) (more : List (Link Term)) :
    Reads 0 (kinds first more) (tree first more) [] := by
  have alone : Grammar.Follows [] := ⟨rfl,rfl⟩
  have none (power : Nat) : Weak power [] := nofun
  have stands := first.stands (behind_follows more alone)
  have strung := settled_strung first.nots first.tree more alone (none _) stands
  simp only [List.append_nil,← List.append_assoc] at strung
  exact strung.reads (by decide) (fun x _ => power_positive _) (fun _ _ => none _) (.done (none 0))

end Chain

-- The words of the chain in their order are a query, wherever its blanks are, and the tree is
-- the one that negation and the strength of the operators give.
theorem Query.compile_chain (first : Term) (more : List (Link Term)) :
    Query.compile (Chain.text first more) = .ok ⟨Chain.text first more,Chain.tree first more⟩ ∧
      ∀ source tokens ending, tokenize source = .ok (tokens ++ [ending]) →
        tokens.map (·.kind) = Chain.kinds first more →
        Query.compile source = .ok ⟨source,Chain.tree first more⟩ := by
  have parsed {source : String} {ending : Token} (ended : (TokenStream.ofText source).ending = .ok ending)
      (kinds : (TokenStream.ofText source).tokens.map (·.kind) = Chain.kinds first more) :
      Query.compile source = .ok ⟨source,Chain.tree first more⟩ := by
    have reads := Chain.reads first more
    rw [← kinds] at reads
    exact Query.compile_reads.mpr ⟨ending,ended,reads⟩
  constructor
  · obtain ⟨kinds,position,ended⟩ := TokenStream.ofText_joined (Chain.words_written first more)
    exact parsed ended (kinds.trans (Chain.words_kinds first more))
  · intro source tokens ending read kinds
    obtain ⟨last,ended,same⟩ := tokenize_ok.mp read
    obtain ⟨rfl,_⟩ := List.append_inj' same rfl
    exact parsed ended kinds

-- The first mark takes both comparisons, the second one of them alone.
theorem Query.compile_chain_negations : Query.compile "!a == !b < a || b" = .ok ⟨"!a == !b < a || b",
    .or (.not (.compare .equal (.field "a") (.not (.compare .less (.field "b") (.field "a")))))
      (.field "b")⟩ := by
  let a (nots : Nat) : Term := ⟨nots,"a",[⟨.identifier "a","a",.start⟩],⟨.ending,"",⟨1,1,2⟩⟩,.field "a",
    rfl,⟨_,_,.identifier,.none,rfl⟩,rfl⟩
  let b (nots : Nat) : Term := ⟨nots,"b",[⟨.identifier "b","b",.start⟩],⟨.ending,"",⟨1,1,2⟩⟩,.field "b",
    rfl,⟨_,_,.identifier,.none,rfl⟩,rfl⟩
  let more : List (Link Term) := [(.compare .equal,b 1),(.compare .less,a 0),(.or,b 0)]
  have tree : Chain.tree (a 1) more = .or (.not (.compare .equal (.field "a")
      (.not (.compare .less (.field "b") (.field "a"))))) (.field "b") := by
    simp [Chain.tree,Chain.settled,Chain.joined,Chain.grouped_single,more,a,b,List.takeWhile_cons,
      List.dropWhile_cons,Link.compares,Connective.compares,Connective.join]
  have read := (Query.compile_chain (a 1) more).2 "!a == !b < a || b"
    (TokenStream.ofText "!a == !b < a || b").tokens ⟨.ending,"",⟨17,1,18⟩⟩
    (by decide +kernel) (by decide +kernel)
  rwa [tree] at read

end JsonQuery
