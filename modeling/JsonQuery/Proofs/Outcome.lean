import Mathlib.Data.List.Forall2

namespace JsonQuery

theorem bind_ok {x : Except ε α} {f : α → Except ε β} {b : β} :
    (x >>= f) = .ok b ↔ ∃ a, x = .ok a ∧ f a = .ok b := by
  cases x with
  | error e => exact ⟨nofun,fun ⟨_,given,_⟩ => nomatch given⟩
  | ok a => exact ⟨fun given => ⟨a,rfl,given⟩,fun ⟨_,given,result⟩ => Except.ok.inj given ▸ result⟩

theorem bind_error {x : Except ε α} {f : α → Except ε β} {e : ε} :
    (x >>= f) = .error e ↔ x = .error e ∨ ∃ a, x = .ok a ∧ f a = .error e := by
  cases x with
  | error first =>
      refine ⟨fun raised => .inl (congrArg _ (Except.error.inj raised)),?_⟩
      rintro (raised | ⟨_,absent,_⟩)
      · exact congrArg _ (Except.error.inj raised)
      · cases absent
  | ok a =>
      refine ⟨fun raised => .inr ⟨a,rfl,raised⟩,?_⟩
      rintro (absent | ⟨_,⟨⟩,raised⟩)
      · cases absent
      · exact raised

theorem map_error {x : Except ε α} {f : α → β} {e : ε} : x.map f = .error e ↔ x = .error e := by
  cases x <;> simp [Except.map]

theorem made_raised {x : Except ε α} {f : α → β} {e : ε}
    (raised : (x >>= fun a => pure (f a)) = .error e) : x = .error e := by
  rcases bind_error.mp raised with raised | ⟨_,_,absent⟩
  · exact raised
  · cases absent

theorem bind_answers {x : Except ε α} {f : α → Except ε β} (first : ∃ a, x = .ok a)
    (second : ∀ a, ∃ b, f a = .ok b) : ∃ b, (x >>= f) = .ok b := by
  obtain ⟨a,rfl⟩ := first
  exact second a

theorem mapM_congr {f g : α → Except ε β} {items : List α} (each : ∀ item ∈ items, f item = g item) :
    items.mapM f = items.mapM g := by
  induction items with
  | nil => rfl
  | cons item items ih =>
      rw [List.mapM_cons,List.mapM_cons,each item List.mem_cons_self,
        ih fun later present => each later (List.mem_cons_of_mem item present)]

theorem mapM_forall₂ {f : α → Except ε β} {items : List α} {xs : List β} :
    items.mapM f = .ok xs ↔ List.Forall₂ (fun item x => f item = .ok x) items xs := by
  constructor
  · intro mapped
    induction items generalizing xs with
    | nil => cases mapped; exact .nil
    | cons item items ih =>
        rw [List.mapM_cons] at mapped
        obtain ⟨x,first,rest⟩ := bind_ok.mp mapped
        obtain ⟨others,later,made⟩ := bind_ok.mp rest
        cases made
        exact .cons first (ih later)
  · intro each
    induction each with
    | nil => rfl
    | cons first _ ih =>
        rw [List.mapM_cons,first,ih]
        rfl

theorem mapM_ok {f : α → Except ε β} {items : List α} {xs : List β} (mapped : items.mapM f = .ok xs) :
    xs.length = items.length ∧ ∀ x ∈ xs, ∃ item ∈ items, f item = .ok x := by
  have each := mapM_forall₂.mp mapped
  refine ⟨each.length_eq.symm,fun x inside => ?_⟩
  obtain ⟨i,here,rfl⟩ := List.getElem_of_mem inside
  have there : i < items.length := each.length_eq ▸ here
  exact ⟨items[i],List.getElem_mem there,each.get there here⟩

theorem mapM_answers {f : α → Except ε β} {items : List α} (each : ∀ item ∈ items, ∃ b, f item = .ok b) :
    ∃ bs, items.mapM f = .ok bs := by
  induction items with
  | nil => exact ⟨[],rfl⟩
  | cons item items ih =>
      obtain ⟨one,more⟩ := List.forall_mem_cons.mp each
      rw [List.mapM_cons]
      exact bind_answers one fun _ => bind_answers (ih more) fun _ => ⟨_,rfl⟩

theorem mapM_first {f : α → Except ε β} {items : List α} {e : ε} (raised : items.mapM f = .error e) :
    ∃ front item back, items = front ++ item :: back ∧ (∀ earlier ∈ front, ∃ x, f earlier = .ok x) ∧
      f item = .error e := by
  induction items with
  | nil => cases raised
  | cons item items ih =>
      rw [List.mapM_cons] at raised
      rcases bind_error.mp raised with here | ⟨x,answered,raised⟩
      · exact ⟨[],item,items,rfl,nofun,here⟩
      · obtain ⟨front,other,back,rfl,earlier,same⟩ := ih (made_raised raised)
        exact ⟨item :: front,other,back,rfl,List.forall_mem_cons.mpr ⟨⟨x,answered⟩,earlier⟩,same⟩

theorem mapM_fault {f : α → Except ε β} {items : List α} {e : ε} (raised : items.mapM f = .error e) :
    ∃ item ∈ items, f item = .error e := by
  obtain ⟨front,item,back,rfl,_,same⟩ := mapM_first raised
  exact ⟨item,List.mem_append_right front List.mem_cons_self,same⟩

end JsonQuery
