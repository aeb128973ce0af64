import JsonQuery.Proofs.Function.Signature

namespace JsonQuery

-- What each type admits. No value is a reference to an expression, and no type of values
-- admits one.
inductive ParameterType.Admits : ParameterType → Argument → Prop where
  | any : Admits .any (.value v)
  | null : Admits .null (.value .null)
  | boolean : Admits .boolean (.value (.bool b))
  | number : Admits .number (.value (.number n))
  | string : Admits .string (.value (.string s))
  | array : Admits .array (.value (.array vs))
  | object : Admits .object (.value (.object es))
  | arrayOfNumbers {vs : List Json} (each : ∀ v ∈ vs, v.kind = .number) : Admits .arrayOfNumbers (.value (.array vs))
  | arrayOfStrings {vs : List Json} (each : ∀ v ∈ vs, v.kind = .string) : Admits .arrayOfStrings (.value (.array vs))
  | expression : Admits .expression (.expression e run)

theorem ParameterType.acceptsValue_iff (type : ParameterType) (v : Json) :
    type.acceptsValue v = true ↔ type.Admits (.value v) := by
  constructor
  · intro accepted
    cases type <;> cases v <;> try cases accepted
    case arrayOfNumbers.array =>
        exact .arrayOfNumbers fun v inside => eq_of_beq (List.all_eq_true.mp accepted v inside)
    case arrayOfStrings.array =>
        exact .arrayOfStrings fun v inside => eq_of_beq (List.all_eq_true.mp accepted v inside)
    all_goals constructor
  · intro admitted
    cases admitted with
    | arrayOfNumbers each => exact List.all_eq_true.mpr fun v inside => beq_iff_eq.mpr (each v inside)
    | arrayOfStrings each => exact List.all_eq_true.mpr fun v inside => beq_iff_eq.mpr (each v inside)
    | _ => rfl

theorem Argument.accepts_iff {types : List ParameterType} {x : Argument} :
    x.accepts types = true ↔ ∃ type ∈ types, type.Admits x := by
  unfold accepts
  rw [List.any_eq_true]
  refine exists_congr fun type => and_congr_right fun _ => ?_
  cases x with
  | value v => exact type.acceptsValue_iff v
  | expression e run =>
      constructor
      · intro same
        cases eq_of_beq same
        exact .expression
      · intro admitted
        cases admitted
        rfl

theorem Argument.refuses_iff {types : List ParameterType} {x : Argument} :
    x.accepts types = false ↔ ∀ type ∈ types, ¬ type.Admits x := by
  rw [← Bool.not_eq_true,accepts_iff]
  simp

-- One step in the making of a signature.
inductive Declaration where
  | arg (types : List ParameterType)
  | optionalArg (types : List ParameterType)
  | variadic (types : List ParameterType)

namespace Declaration

def apply (s : Signature) : Declaration → Signature
  | .arg types => s.arg types
  | .optionalArg types => s.optionalArg types
  | .variadic types => s.variadic types

def parameter? : Declaration → Option Parameter
  | .arg types => some ⟨types,false⟩
  | .optionalArg types => some ⟨types,true⟩
  | .variadic _ => none

def variadic? : Declaration → Option (List ParameterType)
  | .variadic types => some types
  | _ => none

-- Where a variadic type is declared among the parameters does not matter, and a later one
-- takes the place of an earlier one.
def parameters (ds : List Declaration) : List Parameter := ds.filterMap parameter?

def further? (ds : List Declaration) : Option (List ParameterType) := ds.reverse.findSome? variadic?

def arity (ds : List Declaration) : Arity :=
  ⟨((parameters ds).takeWhile fun p => !p.optional).length,
    if (further? ds).isSome then none else some (parameters ds).length⟩

-- The types that are declared for an argument, by its own parameter or for all further ones.
inductive Takes (ds : List Declaration) (index : Nat) : List ParameterType → Prop where
  | parameter (here : (parameters ds)[index]? = some p) : Takes ds index p.types
  | further (beyond : (parameters ds).length ≤ index) (last : further? ds = some types) : Takes ds index types

def Suits (ds : List Declaration) (index : Nat) (x : Argument) : Prop :=
  ∃ types, Takes ds index types ∧ ∃ type ∈ types, type.Admits x

def Miscounted (ds : List Declaration) (count : Nat) : Prop :=
  count < (arity ds).least ∨ ∃ most, (arity ds).most = some most ∧ most < count

-- All that can come of checking arguments. Their count comes first, and of several that do not
-- suit the first one is told.
inductive Verdict (ds : List Declaration) (function : String) (arguments : List Argument) :
    Except EvalError Unit → Prop where
  | miscounted (outside : Miscounted ds arguments.length) :
      Verdict ds function arguments (.error (.arity function (arity ds) arguments.length))
  | passed (within : ¬ Miscounted ds arguments.length)
      (each : ∀ i x, arguments[i]? = some x → Suits ds i x) : Verdict ds function arguments (.ok ())
  | refused (within : ¬ Miscounted ds arguments.length) (split : arguments = front ++ x :: back)
      (before : ∀ i y, front[i]? = some y → Suits ds i y) (takes : Takes ds front.length types)
      (other : ∀ type ∈ types, ¬ type.Admits x) :
      Verdict ds function arguments (.error (.type (.argument function (front.length + 1) types x.form)))

end Declaration

namespace Signature

def declared (ds : List Declaration) : Signature := ds.foldl Declaration.apply empty

theorem declared_parts (ds : List Declaration) (s : Signature) :
    ds.foldl Declaration.apply s =
      ⟨s.parameters ++ Declaration.parameters ds,(Declaration.further? ds).or s.variadicTypes⟩ := by
  induction ds generalizing s with
  | nil => simp [Declaration.parameters,Declaration.further?]
  | cons d ds ih =>
      rw [List.foldl_cons,ih]
      unfold Declaration.parameters Declaration.further?
      cases d <;> simp [Declaration.apply,arg,optionalArg,variadic,Declaration.parameter?,Declaration.variadic?,
        List.filterMap_cons]

theorem declared_eq (ds : List Declaration) :
    declared ds = ⟨Declaration.parameters ds,Declaration.further? ds⟩ := by
  rw [declared,declared_parts]
  simp [empty]

section
variable {ds : List Declaration}

theorem declared_arity : (declared ds).arity = Declaration.arity ds := by
  rw [declared_eq,arity,Declaration.arity]
  cases Declaration.further? ds <;> rfl

theorem declared_admits (count : Nat) :
    (declared ds).arity.admits count = true ↔ ¬ Declaration.Miscounted ds count := by
  rw [declared_arity,Declaration.Miscounted,Arity.admits]
  cases (Declaration.arity ds).most <;> simp

theorem typesAt?_takes {index : Nat} {types : List ParameterType} :
    (declared ds).typesAt? index = some types ↔ Declaration.Takes ds index types := by
  rw [declared_eq,typesAt?]
  dsimp only
  constructor
  · intro given
    split at given
    · rename_i p here
      cases given
      exact .parameter here
    · rename_i beyond
      exact .further (List.getElem?_eq_none_iff.mp beyond) given
  · intro takes
    cases takes with
    | parameter here => rw [here]
    | further beyond last =>
        rw [List.getElem?_eq_none beyond]
        exact last

theorem takes_within {count index : Nat} (within : ¬ Declaration.Miscounted ds count) (inside : index < count) :
    ∃ types, Declaration.Takes ds index types := by
  by_cases here : index < (Declaration.parameters ds).length
  · exact ⟨_,.parameter (List.getElem?_eq_getElem here)⟩
  · cases last : Declaration.further? ds with
    | some types => exact ⟨types,.further (Nat.le_of_not_lt here) last⟩
    | none =>
        refine absurd (.inr ⟨_,?_,Nat.lt_of_le_of_lt (Nat.le_of_not_lt here) inside⟩) within
        simp [Declaration.arity,last]

theorem suits_iff {index : Nat} {x : Argument} : Declaration.Suits ds index x ↔
    ∃ types, (declared ds).typesAt? index = some types ∧ x.accepts types = true := by
  simp only [Declaration.Suits,typesAt?_takes,Argument.accepts_iff]

end

-- The arguments in front of the one that is told were all accepted.
theorem checkTypes_error {s : Signature} {function : String} {index : Nat} {arguments : List Argument} {e : EvalError} :
    s.checkTypes function index arguments = .error e ↔ ∃ front x back types, arguments = front ++ x :: back ∧
      (∀ i y, front[i]? = some y → ∃ types, s.typesAt? (index + i) = some types ∧ y.accepts types = true) ∧
      s.typesAt? (index + front.length) = some types ∧ x.accepts types = false ∧
      e = .type (.argument function (index + front.length + 1) types x.form) := by
  constructor
  · intro raised
    induction arguments generalizing index with
    | nil => cases raised
    | cons argument rest ih =>
        unfold checkTypes at raised
        split at raised
        · cases raised
        · rename_i types given
          split at raised
          · rename_i accepted
            obtain ⟨front,x,back,others,rfl,before,told,refused,rfl⟩ := ih raised
            rw [Nat.succ_add_eq_add_succ] at told
            refine ⟨argument :: front,x,back,others,rfl,fun i y here => ?_,told,refused,?_⟩
            · cases i with
              | zero => cases here; exact ⟨types,given,accepted⟩
              | succ i => exact Nat.succ_add_eq_add_succ index i ▸ before i y here
            · rw [Nat.succ_add_eq_add_succ,List.length_cons]
          · rename_i refused
            cases raised
            exact ⟨[],argument,rest,types,rfl,nofun,given,Bool.eq_false_iff.mpr refused,rfl⟩
  · rintro ⟨front,x,back,types,rfl,before,told,refused,rfl⟩
    induction front generalizing index with
    | nil =>
        have given : s.typesAt? index = some types := told
        simp [checkTypes,given,refused]
    | cons y front ih =>
        obtain ⟨others,given,accepted⟩ := before 0 y rfl
        have given : s.typesAt? index = some others := given
        have later := @ih (index + 1) (fun i z here => Nat.succ_add_eq_add_succ index i ▸ before (i + 1) z here)
          (Nat.succ_add_eq_add_succ index front.length ▸ told)
        rw [Nat.succ_add_eq_add_succ] at later
        simpa [checkTypes,given,accepted] using later

section
variable {ds : List Declaration} {function : String} {arguments : List Argument}

theorem verdict_validate : Declaration.Verdict ds function arguments ((declared ds).validate function arguments) := by
  unfold validate
  split
  · rename_i admitted
    have within := (declared_admits _).mp admitted
    cases checked : (declared ds).checkTypes function 0 arguments with
    | ok =>
        refine .passed within fun i x here => ?_
        obtain ⟨types,takes⟩ := takes_within within (List.getElem?_eq_some_iff.mp here).1
        have given := typesAt?_takes.mpr takes
        exact suits_iff.mpr ⟨types,given,checkTypes_ok.mp checked i x types here (by rwa [Nat.zero_add])⟩
    | error e =>
        obtain ⟨front,x,back,types,split,before,told,refused,rfl⟩ := checkTypes_error.mp checked
        simp only [Nat.zero_add] at before told ⊢
        exact .refused within split (fun i y here => suits_iff.mpr (before i y here)) (typesAt?_takes.mp told)
          (Argument.refuses_iff.mp refused)
  · rename_i refused
    rw [declared_arity]
    exact .miscounted (Classical.not_not.mp (mt (declared_admits _).mpr refused))

theorem validate_of_verdict (verdict : Declaration.Verdict ds function arguments r) :
    (declared ds).validate function arguments = r := by
  unfold validate
  cases verdict with
  | miscounted outside =>
      rw [if_neg fun admitted => (declared_admits _).mp admitted outside,declared_arity]
  | passed within each =>
      rw [if_pos ((declared_admits _).mpr within)]
      refine checkTypes_ok.mpr fun i x types here given => ?_
      obtain ⟨others,given',accepted⟩ := suits_iff.mp (each i x here)
      rw [Nat.zero_add] at given
      cases given.symm.trans given'
      exact accepted
  | @refused front x back types within split before takes other =>
      rw [if_pos ((declared_admits _).mpr within)]
      refine checkTypes_error.mpr ⟨front,x,back,types,split,?_,?_,Argument.refuses_iff.mpr other,?_⟩
      · simp only [Nat.zero_add]
        exact fun i y here => suits_iff.mp (before i y here)
      · rw [Nat.zero_add]
        exact typesAt?_takes.mpr takes
      · rw [Nat.zero_add]

end

-- Checking arguments gives the verdict that the declarations call for, and no other one.
theorem validate_exact (ds : List Declaration) (function : String) (arguments : List Argument)
    (r : Except EvalError Unit) :
    (declared ds).validate function arguments = r ↔ Declaration.Verdict ds function arguments r :=
  ⟨fun same => same ▸ verdict_validate,validate_of_verdict⟩

-- A required parameter behind an optional one may be left out, and the variadic type that was
-- declared first counts for nothing.
example : let s := declared [.variadic [.string],.optionalArg [.any],.arg [.number],.variadic [.null]]
    let one := Argument.value (.number (.int 1))
    s.validate "f" [] = .ok () ∧ s.validate "f" [one,one,.value (.string "")] =
      .error (.type (.argument "f" 3 [.null] (.value .string))) := ⟨rfl,rfl⟩

end Signature
end JsonQuery
