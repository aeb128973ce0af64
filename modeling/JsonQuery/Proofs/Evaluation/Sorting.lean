import JsonQuery.Proofs.Builtin.Asked
import JsonQuery.Proofs.Evaluation.Calls
import JsonQuery.Proofs.Evaluation.WellFormed
import JsonQuery.Proofs.Json.StableSorting
import JsonQuery.Proofs.Outcome

namespace JsonQuery
open Json

namespace Builtin

-- The key an element is told apart by; where there is none it does not matter.
def keyOf (run : Json → Except EvalError Json) (element : Json) : Json :=
  (run element).toOption.getD .null

section
variable {run : Json → Except EvalError Json} {function : String} {expected : Option Kind}
  {element : Json} {elements : List Json} {pairs : List (Json × Json)}

-- From the first key on its kind is the one expected.
theorem keyed_cons_ok (done : keyed function run expected (element :: elements) = .ok pairs) :
    ∃ key others, run element = .ok key ∧ (key.kind = .number ∨ key.kind = .string) ∧
      (∀ first ∈ expected, first = key.kind) ∧ keyed function run (some key.kind) elements = .ok others ∧
      pairs = (key,element) :: others := by
  unfold keyed at done
  obtain ⟨key,here,done⟩ := bind_ok.mp done
  split at done
  · rename_i comparable
    split at done
    · split at done
      · rename_i first same
        obtain ⟨others,later,made⟩ := bind_ok.mp done
        cases made
        refine ⟨key,others,here,comparable,fun other given => ?_,same ▸ later,rfl⟩
        cases given
        exact same
      · cases done
    · obtain ⟨others,later,made⟩ := bind_ok.mp done
      cases made
      exact ⟨key,others,here,comparable,nofun,later,rfl⟩
  · cases done

theorem keyed_ok (begun : ∀ first ∈ expected, first = .number ∨ first = .string)
    (done : keyed function run expected elements = .ok pairs) :
    pairs = elements.map (fun element => (keyOf run element,element)) ∧
      (∀ element ∈ elements, run element = .ok (keyOf run element)) ∧
      ∃ kind, (kind = .number ∨ kind = .string) ∧ (∀ first ∈ expected, first = kind) ∧
        ∀ element ∈ elements, (keyOf run element).kind = kind := by
  induction elements generalizing expected pairs with
  | nil =>
      cases done
      refine ⟨rfl,nofun,?_⟩
      cases expected with
      | none => exact ⟨.number,.inl rfl,nofun,nofun⟩
      | some first => exact ⟨first,begun first rfl,fun _ given => (Option.some.inj given).symm,nofun⟩
  | cons element rest ih =>
      obtain ⟨key,others,here,comparable,expects,later,rfl⟩ := keyed_cons_ok done
      obtain ⟨paired,evaluated,kind,_,same,kinds⟩ := ih (fun _ given => Option.some.inj given ▸ comparable) later
      obtain rfl := same key.kind rfl
      have own : keyOf run element = key := by simp [keyOf,here,Except.toOption]
      refine ⟨by rw [paired,List.map_cons,own],?_,key.kind,comparable,expects,?_⟩
      · exact List.forall_mem_cons.mpr ⟨own ▸ here,evaluated⟩
      · exact List.forall_mem_cons.mpr ⟨own ▸ rfl,kinds⟩

end
end Builtin

section
variable {silent : Bool} {root v : Json} {scope : Scope Json} {subject key : Expr} {elements : List Json}

-- Of the builtins that put the elements of one array in order.
theorem eval_ranked (b : Builtin) (finish : Json → Json) (declared : b.signature = Builtin.sort.signature)
    (body : ∀ subject, b.body [.value subject] = .ok (finish subject))
    (given : subject.eval ⟨.builtins,silent,root⟩ v scope = .ok (.array elements))
    (passed : Builtin.sort.signature.validate "sort" [.value (.array elements)] = .ok ()) :
    (Expr.call b.name [subject]).eval ⟨.builtins,silent,root⟩ v scope = .ok (finish (.array elements)) := by
  rw [Expr.eval_builtin,List.mapM_cons,Expr.evalArgument_given given rfl]
  rw [← declared] at passed
  have admitted : b.function.signature.validate b.function.name [.value (.array elements)] = .ok () :=
    Signature.validate_ok.mpr (Signature.validate_ok.mp passed)
  exact Function.call_answers admitted (body _) silent

theorem eval_sort (given : subject.eval ⟨.builtins,silent,root⟩ v scope = .ok (.array elements))
    (passed : Builtin.sort.signature.validate "sort" [.value (.array elements)] = .ok ()) :
    (Expr.call "sort" [subject]).eval ⟨.builtins,silent,root⟩ v scope = .ok (.array (sortOn id elements)) :=
  eval_ranked .sort Builtin.sortBody rfl (fun _ => rfl) given passed

theorem sort_preordered (formed : ∀ element ∈ elements, element.WellFormed)
    (passed : Builtin.sort.signature.validate "sort" [.value (.array elements)] = .ok ()) :
    Preordered elements := by
  have accepted := (Signature.validate_ok.mp passed).2 0 _ Builtin.comparable rfl rfl
  have kinds : ParameterType.isArrayOf .number (.array elements) = true ∨
      ParameterType.isArrayOf .string (.array elements) = true := by
    simpa [Argument.accepts,Builtin.comparable,ParameterType.acceptsValue] using accepted
  have alike {kind : Kind} (uniform : ParameterType.isArrayOf kind (.array elements) = true) :
      ∀ element ∈ elements, element.kind = kind := by
    intro element present
    exact eq_of_beq (List.all_eq_true.mp (Bool.and_eq_true_iff.mp uniform).2 element present)
  rcases kinds with numbers | strings
  · exact .of_kind formed (.inl rfl) (alike numbers)
  · exact .of_kind formed (.inr rfl) (alike strings)

theorem eval_sortBy (answered : (Expr.call "sort_by" [subject,.reference key]).eval ⟨.builtins,silent,root⟩ v scope =
    .ok result) (spoken : silent = false ∨ result ≠ .null) :
    ∃ elements pairs, subject.eval ⟨.builtins,silent,root⟩ v scope = .ok (.array elements) ∧
      Builtin.keyed "sort_by" (fun element => key.eval ⟨.builtins,silent,root⟩ element scope) none elements = .ok pairs ∧
      result = .array ((sortOn (·.1) pairs).map (·.2)) := by
  have named := Expr.eval_builtin .sortBy [subject,.reference key] silent root v scope
  rw [List.mapM_cons] at named
  replace answered := named.symm.trans answered
  obtain ⟨arguments,evaluated,called⟩ := bind_ok.mp answered
  obtain ⟨x,first,rest⟩ := bind_ok.mp evaluated
  cases rest
  obtain ⟨passed,body⟩ := Function.call_answered called spoken
  have accepted := (Signature.validate_ok.mp passed).2 0 x [.array] rfl rfl
  cases x with
  | expression => cases accepted
  | value given =>
      cases given <;> cases accepted
      rename_i elements
      obtain ⟨pairs,keyed,made⟩ := bind_ok.mp body
      cases made
      exact ⟨elements,pairs,Expr.evalArgument_value first,keyed,rfl⟩

end

-- What the sorts compare can always be compared, so that nothing is taken for equal that is not,
-- and an element is never rebuilt. A result that is null under silence is no sorted array but a
-- type fault.
theorem Expr.eval_sorted (subject : Expr) (silent : Bool) (root v : Json) (scope : Scope Json)
    (rooted : root.WellFormed) (formed : v.WellFormed)
    (bound : ∀ name value, scope.get? name = some value → value.WellFormed) :
    (∀ elements, subject.eval ⟨.builtins,silent,root⟩ v scope = .ok (.array elements) →
      Builtin.sort.signature.validate "sort" [.value (.array elements)] = .ok () →
      ∃ sorted, (Expr.call "sort" [subject]).eval ⟨.builtins,silent,root⟩ v scope = .ok (.array sorted) ∧
        StablySorted id elements sorted ∧ Preordered elements) ∧
    ∀ key result, (Expr.call "sort_by" [subject,.reference key]).eval ⟨.builtins,silent,root⟩ v scope = .ok result →
      silent = false ∨ result ≠ .null →
      ∃ elements keyOf sorted, subject.eval ⟨.builtins,silent,root⟩ v scope = .ok (.array elements) ∧
        (∀ element ∈ elements, key.eval ⟨.builtins,silent,root⟩ element scope = .ok (keyOf element)) ∧
        result = .array sorted ∧ StablySorted keyOf elements sorted ∧ Preordered (elements.map keyOf) := by
  have whole {elements : List Json} (given : subject.eval ⟨.builtins,silent,root⟩ v scope = .ok (.array elements)) :
      ∀ element ∈ elements, element.WellFormed :=
    (eval_formed rooted subject v scope formed bound _ given).elements
  refine ⟨fun elements given passed => ?_,fun key result answered spoken => ?_⟩
  · have ordered := sort_preordered (whole given) passed
    exact ⟨_,eval_sort given passed,sortOn_stable (by rwa [List.map_id]),ordered⟩
  · obtain ⟨elements,pairs,given,keyed,rfl⟩ := eval_sortBy answered spoken
    have begun : ∀ first ∈ (none : Option Kind), first = .number ∨ first = .string := nofun
    obtain ⟨rfl,evaluated,kind,comparable,-,kinds⟩ := Builtin.keyed_ok begun keyed
    have ordered : Preordered (elements.map (Builtin.keyOf fun element =>
        key.eval ⟨.builtins,silent,root⟩ element scope)) := by
      refine .of_kind (List.forall_mem_map.mpr fun element present => ?_) comparable (List.forall_mem_map.mpr kinds)
      exact eval_formed rooted key element scope (whole given element present) bound _ (evaluated element present)
    refine ⟨elements,_,_,given,evaluated,?_,sortOn_stable ordered,ordered⟩
    rw [sortOn_map,List.map_map]
    exact congrArg _ (List.map_id _)

-- One comes twice, as a float and as an integer: each stays what it is, and before two they stay in
-- their order. By a key that ties all three nothing moves.
theorem Expr.eval_sorted_ties :
    let float : Json := .number (.float (.ofInt 1))
    let elements : List Json := [.number (.int 2),float,.number (.int 1)]
    let sorted : List Json := [float,.number (.int 1),.number (.int 2)]
    let v : Json := .array elements
    let answer (name : String) (arguments : List Expr) := (Expr.call name arguments).eval ⟨.builtins,false,v⟩ v .empty
    v.WellFormed ∧ answer "sort" [.current] = .ok (.array sorted) ∧ StablySorted id elements sorted ∧
      answer "sort_by" [.current,.reference .current] = .ok (.array sorted) ∧
      (∃ keyOf, (∀ element ∈ elements, keyOf element = element) ∧ StablySorted keyOf elements sorted) ∧
      answer "sort_by" [.current,.reference (.call "type" [.current])] = .ok v := by
  intro float elements sorted v answer
  have formed : v.WellFormed := by
    have finite : (Number.Binary64.ofInt 1).isFinite = true := by decide +kernel
    exact .array (List.forall_mem_cons.mpr ⟨.number ⟨by decide,by decide⟩,List.forall_mem_cons.mpr
      ⟨.number finite,List.forall_mem_singleton.mpr (.number ⟨by decide,by decide⟩)⟩⟩)
  have passed : Builtin.sort.signature.validate "sort" [.value v] = .ok () := rfl
  have falls : notAfter (.number (.int 2)) float = false := by decide +kernel
  have falls' : notAfter (.number (.int 2)) (.number (.int 1)) = false := by decide +kernel
  have ties : notAfter float (.number (.int 1)) = true := by decide +kernel
  have ordered : sortOn id elements = sorted := by
    simp [elements,sorted,sortOn,List.mergeSort,falls,falls',ties]
  have plain : answer "sort" [.current] = .ok (.array sorted) := ordered ▸ eval_sort rfl passed
  have keyed : answer "sort_by" [.current,.reference .current] = .ok (.array sorted) := by
    have called : answer "sort_by" [.current,.reference .current] =
      .ok (.array ((sortOn (·.1) (elements.map fun element => (element,element))).map (·.2))) := rfl
    rw [called,sortOn_map,List.map_map,← ordered]
    exact congrArg (fun found => Except.ok (Json.array found)) (List.map_id _)
  have equal : notAfter (.string "number") (.string "number") = true := by decide
  have unmoved : sortOn (·.1) (elements.map fun element => (Json.string "number",element)) =
      elements.map fun element => (Json.string "number",element) := by
    simp [elements,sortOn,List.mergeSort,equal]
  have held : answer "sort_by" [.current,.reference (.call "type" [.current])] = .ok v := by
    have called : answer "sort_by" [.current,.reference (.call "type" [.current])] = .ok (.array
      ((sortOn (·.1) (elements.map fun element => (Json.string "number",element))).map (·.2))) := rfl
    rw [called,unmoved]
    rfl
  obtain ⟨sorts,sortsBy⟩ := Expr.eval_sorted .current false v v .empty formed formed nofun
  obtain ⟨_,given,stable,_⟩ := sorts elements rfl passed
  cases plain.symm.trans given
  obtain ⟨others,keyOf,ranked,given,keys,same,tied,_⟩ := sortsBy .current (.array sorted) keyed (.inl rfl)
  obtain rfl : elements = others := Json.array.inj (Except.ok.inj given)
  obtain rfl := Json.array.inj same
  have itself : ∀ element ∈ elements, keyOf element = element := fun element present =>
    (Except.ok.inj (keys element present)).symm
  exact ⟨formed,plain,stable,keyed,⟨keyOf,itself,tied⟩,held⟩

end JsonQuery
