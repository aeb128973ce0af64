import JsonQuery.Function.Signature

namespace JsonQuery

-- The body runs after the arguments were checked; it also sees the current value.
structure Function where
  name : String
  signature : Signature
  body : List Argument → Json → Except EvalError Json

namespace Function

def renamed (f : Function) (name : String) : Function := { f with name := name }

-- A copy is the function named anew, by its own name.
def clone (f : Function) : Function := f.renamed f.name

-- Silence turns a type error of the check or of the body into null, and nothing else.
def call (silent : Bool) (f : Function) (arguments : List Argument) (current : Json) :
    Except EvalError Json :=
  let result := do
    f.signature.validate f.name arguments
    f.body arguments current
  match result with
  | .error (.type fault) => if silent then .ok .null else .error (.type fault)
  | _ => result

def outline (f : Function) : Outline :=
  .record "Function" [("name",.string f.name),("signature",f.signature.outline)] true

end Function

-- Functions registered together.
structure FunctionModule where
  name : String
  functions : List Function

-- The value that had to make room for the new one, and the entries with the new one in its place.
def insertEntry (key : String) (value : α) : List (String × α) → Option α × List (String × α)
  | [] => (none,[(key,value)])
  | entry :: rest =>
    if entry.1 = key then (some entry.2,(key,value) :: rest)
    else
      let (replaced,rest) := insertEntry key value rest
      (replaced,entry :: rest)

theorem insertEntry_keys (key : String) (value : α) (entries : List (String × α)) :
    (insertEntry key value entries).2.map (·.1) =
      if key ∈ entries.map (·.1) then entries.map (·.1) else entries.map (·.1) ++ [key] := by
  induction entries with
  | nil => rfl
  | cons entry rest ih =>
      unfold insertEntry
      split
      · rename_i same
        simp [same]
      · rename_i different
        rw [List.map_cons,List.map_cons,ih]
        split
        · rename_i later
          rw [if_pos (List.mem_cons_of_mem _ later)]
        · rename_i fresh
          rw [if_neg]
          · rfl
          · rw [List.mem_cons,not_or]
            exact ⟨Ne.symm different,fresh⟩

theorem insertEntry_distinct {entries : List (String × α)} (distinct : (entries.map (·.1)).Nodup)
    (key : String) (value : α) : ((insertEntry key value entries).2.map (·.1)).Nodup := by
  rw [insertEntry_keys]
  split
  · exact distinct
  · rename_i fresh
    rw [List.nodup_append]
    refine ⟨distinct,List.pairwise_singleton _ key,fun name present given here same => fresh ?_⟩
    rwa [← List.mem_singleton.mp here,← same]

-- Functions by the keys they are stored under, at most one for a key. The entries stand in no
-- order that means anything, and what stands under a key may have any name.
structure Registry where
  entries : List (String × Function)
  distinct : (entries.map (·.1)).Nodup

namespace Registry

def empty : Registry := ⟨[],.nil⟩

def get? (r : Registry) (key : String) : Option Function := (r.entries.find? (·.1 == key)).map (·.2)

def contains (r : Registry) (key : String) : Bool := r.entries.any (·.1 == key)

def names (r : Registry) : List String := (r.entries.map (·.1)).mergeSort fun a b => a ≤ b

def size (r : Registry) : Nat := r.entries.length

-- A function is stored under its own name.
def register (r : Registry) (f : Function) : Option Function × Registry :=
  let stored := insertEntry f.name f r.entries
  (stored.1,⟨stored.2,insertEntry_distinct r.distinct f.name f⟩)

def adding (r : Registry) (f : Function) : Registry := (r.register f).2

-- The alias is the function as it is now, and stays that.
def addAlias (r : Registry) (existing name : String) : Except EvalError Registry :=
  match r.get? existing with
  | some f => .ok (r.adding (f.renamed name))
  | none => .error (.unknownFunction existing)

def registerModule (r : Registry) (m : FunctionModule) : Registry :=
  m.functions.foldl adding r

-- Key by key, each function copied.
def clone (r : Registry) : Registry where
  entries := r.entries.map fun entry => (entry.1,entry.2.clone)
  distinct := by
    rw [List.map_map]
    exact r.distinct

def outline (r : Registry) : Outline :=
  .record "FunctionRegistry" [("functions",.list "" (r.names.map .string))] false

end Registry
end JsonQuery
