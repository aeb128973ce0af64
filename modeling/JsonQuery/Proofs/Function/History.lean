import JsonQuery.Proofs.Function.Registry

namespace JsonQuery
namespace Registry

-- What is done to one registry. `adding` differs from `register` only in giving nothing back.
inductive Change where
  | register (f : Function)
  | adding (f : Function)
  | «alias» (existing name : String)
  | group (m : FunctionModule)

namespace Change

-- Whoever asked for a refused alias goes on with the registry as it was.
def apply : Change → Registry → Registry
  | .register f, r => (r.register f).2
  | .adding f, r => r.adding f
  | .alias existing name, r =>
    match r.addAlias existing name with
    | .ok next => next
    | .error _ => r
  | .group m, r => r.registerModule m

-- The same on the record of everything that was stored, the newest first. An alias is the
-- function that was stored last under the existing name, now stored under the other one.
def record : Change → List Function → List Function
  | .register f, log => f :: log
  | .adding f, log => f :: log
  | .alias existing name, log =>
    match log.find? (·.name == existing) with
    | some f => f.renamed name :: log
    | none => log
  | .group m, log => m.functions.reverse ++ log

def names : Change → List String
  | .register f => [f.name]
  | .adding f => [f.name]
  | .alias _ name => [name]
  | .group m => m.functions.map (·.name)

end Change

-- Registries are held in slots; a clone fills a slot with a copy of what another one holds.
inductive Step where
  | change (slot : Nat) (c : Change)
  | clone (source target : Nat)
  | swap (first second : Nat)

-- What the steps do to whatever is kept in the slots.
structure Keeping (α : Type) where
  change : Change → α → α
  copy : α → α

namespace Step

def apply (k : Keeping α) : Step → (Nat → α) → Nat → α
  | .change slot c, held => fun i => if i = slot then k.change c (held i) else held i
  | .clone source target, held => fun i => if i = target then k.copy (held source) else held i
  | .swap first second, held => fun i =>
    if i = first then held second else if i = second then held first else held i

def run (k : Keeping α) (steps : List Step) (held : Nat → α) : Nat → α :=
  steps.foldl (fun held step => step.apply k held) held

def targets : Step → List Nat
  | .change slot _ => [slot]
  | .clone _ target => [target]
  | .swap first second => [first,second]

section
variable {related : α → β → Prop} {k : Keeping α} {k' : Keeping β}
  (changed : ∀ c a b, related a b → related (k.change c a) (k'.change c b))
  (copied : ∀ a b, related a b → related (k.copy a) (k'.copy b))
include changed copied

-- Two ways of keeping the slots stay related when every single change and copy keeps them so.
theorem apply_related (step : Step) {held : Nat → α} {held' : Nat → β}
    (before : ∀ i, related (held i) (held' i)) (i : Nat) :
    related (step.apply k held i) (step.apply k' held' i) := by
  cases step with
  | change slot c =>
      by_cases here : i = slot
      · simpa [apply,here] using changed c _ _ (before slot)
      · simpa [apply,here] using before i
  | clone source target =>
      by_cases here : i = target
      · simpa [apply,here] using copied _ _ (before source)
      · simpa [apply,here] using before i
  | swap first second =>
      by_cases here : i = first
      · simpa [apply,here] using before second
      · by_cases there : i = second
        · subst there
          simpa [apply,here] using before first
        · simpa [apply,here,there] using before i

theorem run_related (steps : List Step) {held : Nat → α} {held' : Nat → β}
    (before : ∀ i, related (held i) (held' i)) : ∀ i, related (run k steps held i) (run k' steps held' i) := by
  induction steps generalizing held held' with
  | nil => exact before
  | cons step steps ih => exact ih (apply_related changed copied step before)

end

theorem apply_other (k : Keeping α) {step : Step} {i : Nat} (other : i ∉ step.targets)
    (held : Nat → α) : step.apply k held i = held i := by
  cases step <;> simp_all [apply,targets]

-- A slot that nothing is done to keeps what it holds, whatever is done to its clones.
theorem run_other (k : Keeping α) {steps : List Step} {i : Nat}
    (others : ∀ step ∈ steps, i ∉ step.targets) (held : Nat → α) : run k steps held i = held i := by
  induction steps generalizing held with
  | nil => rfl
  | cons step steps ih =>
      obtain ⟨one,more⟩ := List.forall_mem_cons.mp others
      exact (ih more _).trans (apply_other k one held)

theorem run_append (k : Keeping α) (steps later : List Step) (held : Nat → α) :
    run k (steps ++ later) held = run k later (run k steps held) := List.foldl_append

end Step

-- The registries themselves, and their records; the record of a copy is that of the original.
def keeping : Keeping Registry := ⟨Change.apply,clone⟩

def recording : Keeping (List Function) := ⟨Change.record,id⟩

-- Invariant of every history: each key is the name of what it stands for, and what is found was
-- stored last.
structure Holds (r : Registry) (log : List Function) : Prop where
  own : ∀ entry ∈ r.entries, entry.2.name = entry.1
  found : ∀ key, r.get? key = log.find? (·.name == key)

namespace Holds

theorem empty : Holds .empty [] := ⟨nofun,fun _ => rfl⟩

theorem adding (before : Holds r log) (f : Function) : Holds (r.adding f) (f :: log) := by
  refine ⟨fun entry inside => ?_,fun name => ?_⟩
  · rcases insertEntry_mem inside with rfl | old
    · rfl
    · exact before.own entry old
  · rw [get?_adding,before.found]
    by_cases same : f.name = name <;> simp [same]

theorem addingAll (before : Holds r log) (fs : List Function) :
    Holds (fs.foldl Registry.adding r) (fs.reverse ++ log) := by
  induction fs generalizing r log with
  | nil => exact before
  | cons f fs ih =>
      rw [List.reverse_cons,List.append_assoc]
      exact ih (before.adding f)

theorem change (c : Change) (r : Registry) (log : List Function) (before : Holds r log) :
    Holds (c.apply r) (c.record log) := by
  cases c with
  | register f => exact before.adding f
  | adding f => exact before.adding f
  | «alias» existing name =>
      simp only [Change.apply,Change.record,addAlias,before.found]
      cases log.find? (·.name == existing) with
      | none => exact before
      | some f => exact before.adding (f.renamed name)
  | group m => exact before.addingAll m.functions

theorem copy (r : Registry) (log : List Function) (before : Holds r log) : Holds r.clone (id log) := by
  rwa [clone_eq]

theorem builtins : Holds .builtins (Builtin.all.map Builtin.function).reverse := by
  rw [Registry.builtins,registerModules,Builtin.modules_functions]
  simpa using empty.addingAll (Builtin.all.map Builtin.function)

end Holds

theorem Change.apply_other {c : Change} {name : String} (other : name ∉ c.names) (r : Registry) :
    (c.apply r).get? name = r.get? name := by
  have one (f : Function) (apart : f.name ≠ name) : (r.adding f).get? name = r.get? name := by
    rw [get?_adding,if_neg apart]
  cases c with
  | register f => exact one f (fun same => other (by simp [names,same]))
  | adding f => exact one f (fun same => other (by simp [names,same]))
  | «alias» existing given =>
      simp only [Change.apply,addAlias]
      cases r.get? existing with
      | none => rfl
      | some f => exact one (f.renamed given) (fun same => other (by simp [names,← same,Function.renamed]))
  | group m =>
      have absent : m.functions.reverse.find? (·.name == name) = none := by
        refine List.find?_eq_none.mpr fun f inside same => other ?_
        exact eq_of_beq same ▸ List.mem_map_of_mem (List.mem_reverse.mp inside)
      unfold Change.apply registerModule
      rw [get?_addingAll,absent,Option.none_or]

theorem Change.run_other {changes : List Change} {name : String} (others : ∀ c ∈ changes, name ∉ c.names)
    (r : Registry) : (changes.foldl (fun r c => c.apply r) r).get? name = r.get? name := by
  induction changes generalizing r with
  | nil => rfl
  | cons c changes ih =>
      obtain ⟨one,more⟩ := List.forall_mem_cons.mp others
      exact (ih more _).trans (apply_other one r)

-- All that the record says of a registry.
structure LastWriter (r : Registry) (log : List Function) : Prop extends Holds r log where
  named : ∀ key f, r.get? key = some f → f.name = key
  replaced : ∀ f, (r.register f).1 = log.find? (·.name == f.name)
  refused : ∀ existing name, r.get? existing = none →
    r.addAlias existing name = .error (.unknownFunction existing) ∧
      (Change.alias existing name).apply r = r
  captured : ∀ existing name f, r.get? existing = some f →
    r.addAlias existing name = .ok (r.adding (f.renamed name)) ∧
      ∀ later : List Change, (∀ c ∈ later, name ∉ c.names) →
        (later.foldl (fun r c => c.apply r) (r.adding (f.renamed name))).get? name = some (f.renamed name)
  contained : ∀ key, r.contains key = (r.get? key).isSome
  ascending : r.names.Pairwise (· < ·)
  listed : ∀ name, name ∈ r.names ↔ r.contains name = true
  counted : r.names.length = r.size

theorem Holds.lastWriter (holds : Holds r log) : LastWriter r log := by
  refine ⟨holds,?named,?replaced,?refused,?captured,contains_get? r,names_ascending r,?listed,?counted⟩
  case named =>
      intro key f found
      exact holds.own _ (mem_of_get? found)
  case replaced =>
      intro f
      exact (insertEntry_replaced f.name f r.entries).trans (holds.found f.name)
  case refused =>
      intro existing name absent
      have refused : r.addAlias existing name = .error (.unknownFunction existing) := by
        rw [addAlias,absent]
      exact ⟨refused,by rw [Change.apply,refused]⟩
  case captured =>
      intro existing name f found
      refine ⟨by rw [addAlias,found],fun later others => ?_⟩
      rw [Change.run_other others,get?_adding]
      exact if_pos rfl
  case listed =>
      intro name
      rw [(names_perm r).mem_iff,contains,List.any_eq_true,List.mem_map]
      simp only [beq_iff_eq]
  case counted => rw [(names_perm r).length_eq,List.length_map,size]

-- What a registry is before anything is done to it.
inductive Start where
  | empty | builtins

def Start.registry : Start → Registry
  | .empty => .empty
  | .builtins => .builtins

def Start.record : Start → List Function
  | .empty => []
  | .builtins => (Builtin.all.map Builtin.function).reverse

-- Through any history of changes, clones and swaps a registry is the last-writer reading of
-- its own record, and nothing that is done to other registries reaches it.
theorem history_lastWriter (start : Nat → Start) (steps : List Step) (slot : Nat) :
    LastWriter (Step.run keeping steps (fun i => (start i).registry) slot)
      (Step.run recording steps (fun i => (start i).record) slot) ∧
    ∀ later : List Step, (∀ step ∈ later, slot ∉ step.targets) →
      Step.run keeping (steps ++ later) (fun i => (start i).registry) slot =
        Step.run keeping steps (fun i => (start i).registry) slot := by
  have begun (i : Nat) : Holds (start i).registry (start i).record := by
    cases start i with
    | empty => exact .empty
    | builtins => exact .builtins
  have holds : Holds (Step.run keeping steps (fun i => (start i).registry) slot)
      (Step.run recording steps (fun i => (start i).record) slot) :=
    Step.run_related Holds.change Holds.copy steps begun slot
  refine ⟨holds.lastWriter,fun later others => ?_⟩
  rw [Step.run_append,Step.run_other keeping others]

end Registry
end JsonQuery
