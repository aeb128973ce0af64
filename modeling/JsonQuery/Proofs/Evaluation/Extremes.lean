import JsonQuery.Proofs.Evaluation.Sorting
import JsonQuery.Proofs.Json.Extremes

namespace JsonQuery
open Json

namespace Builtin

-- One fault in the words of every function: a fault of the key expression names none of them,
-- a key that cannot be compared is refused in the function's own name.
inductive KeysFault (run : Json → Except EvalError Json) (elements : List Json) : (String → EvalError) → Prop where
  | deferred (inside : element ∈ elements) (raised : run element = .error e) : KeysFault run elements fun _ => e
  | kind (k : Kind) : KeysFault run elements fun function => .type (.keyKind function k)
  | kinds (first k : Kind) : KeysFault run elements fun function => .type (.keyKinds function first k)

theorem KeysFault.behind {run : Json → Except EvalError Json} {elements : List Json} {fault : String → EvalError}
    (one : KeysFault run elements fault) (element : Json) : KeysFault run (element :: elements) fault := by
  cases one with
  | deferred inside raised => exact .deferred (List.mem_cons_of_mem element inside) raised
  | kind k => exact .kind k
  | kinds first k => exact .kinds first k

section
variable {run : Json → Except EvalError Json} {function : String} {element key : Json} {rest : List Json}
  (evaluated : run element = .ok key)
include evaluated

theorem keyed_refused (expected : Option Kind) (incomparable : ¬(key.kind = .number ∨ key.kind = .string)) :
    keyed function run expected (element :: rest) = .error (.type (.keyKind function key.kind)) := by
  rw [keyed,evaluated]
  exact if_neg incomparable

section
variable (comparable : key.kind = .number ∨ key.kind = .string)
include comparable

theorem keyed_mixed (other : first ≠ key.kind) : keyed function run (some first) (element :: rest) =
    .error (.type (.keyKinds function first key.kind)) := by
  rw [keyed,evaluated]
  refine (if_pos comparable).trans ?_
  exact if_neg other

theorem keyed_met {expected : Option Kind} (expects : ∀ first ∈ expected, first = key.kind) :
    keyed function run expected (element :: rest) =
      keyed function run (some key.kind) rest >>= fun others => pure ((key,element) :: others) := by
  rw [keyed,evaluated]
  refine (if_pos comparable).trans ?_
  cases expected with
  | none => rfl
  | some first =>
      obtain rfl := expects first rfl
      exact if_pos rfl

end
end

-- The keys are the same for every function, and so is the first fault.
theorem keyed_uniform (run : Json → Except EvalError Json) (expected : Option Kind) (elements : List Json) :
    (∃ pairs, ∀ function, keyed function run expected elements = .ok pairs) ∨
      ∃ fault, KeysFault run elements fault ∧
        ∀ function, keyed function run expected elements = .error (fault function) := by
  induction elements generalizing expected with
  | nil => exact .inl ⟨[],fun _ => rfl⟩
  | cons element rest ih =>
      cases evaluated : run element with
      | error e =>
          refine .inr ⟨fun _ => e,.deferred List.mem_cons_self evaluated,fun function => ?_⟩
          rw [keyed,evaluated]
          rfl
      | ok key =>
          by_cases comparable : key.kind = .number ∨ key.kind = .string
          · by_cases expects : ∀ first ∈ expected, first = key.kind
            · rcases ih (some key.kind) with ⟨others,done⟩ | ⟨fault,one,raised⟩
              · refine .inl ⟨(key,element) :: others,fun function => ?_⟩
                rw [keyed_met evaluated comparable expects,done function]
                rfl
              · refine .inr ⟨fault,one.behind element,fun function => ?_⟩
                rw [keyed_met evaluated comparable expects,raised function]
                rfl
            · cases expected with
              | none => exact absurd nofun expects
              | some first =>
                  have other : first ≠ key.kind := fun same => expects fun _ given => Option.some.inj given ▸ same
                  exact .inr ⟨_,.kinds first key.kind,fun _ => keyed_mixed evaluated comparable other⟩
          · exact .inr ⟨_,.kind key.kind,fun _ => keyed_refused evaluated expected comparable⟩

end Builtin

section
variable {silent : Bool} {root v : Json} {scope : Scope Json} {subject : Expr} {elements : List Json}

-- Of the builtins that put the elements of one array in the order of their keys.
theorem eval_byKey (b : Builtin) (finish : List (Json × Json) → Json) (declared : b.signature = Builtin.sortBy.signature)
    (body : ∀ arguments, b.body arguments = Builtin.keyedArguments b.name arguments >>= fun pairs => pure (finish pairs))
    (key : Expr) (given : subject.eval ⟨.builtins,silent,root⟩ v scope = .ok (.array elements)) :
    (Expr.call b.name [subject,.reference key]).eval ⟨.builtins,silent,root⟩ v scope = Function.hush silent
      (Builtin.keyed b.name (fun element => key.eval ⟨.builtins,silent,root⟩ element scope) none elements >>=
        fun pairs => pure (finish pairs)) := by
  have passed : b.function.signature.validate b.function.name
      [.value (.array elements),.expression key fun element => key.eval ⟨.builtins,silent,root⟩ element scope] =
        .ok () := by
    rw [Builtin.function,declared]
    rfl
  rw [Expr.eval_builtin,List.mapM_cons,Expr.evalArgument_given given rfl]
  refine (Function.call_passed silent passed).trans (congrArg _ ?_)
  exact body _

theorem keyed_ordered (rooted : root.WellFormed) (formed : ∀ element ∈ elements, element.WellFormed)
    (bound : ∀ name value, scope.get? name = some value → value.WellFormed) (key : Expr)
    (done : Builtin.keyed function (fun element => key.eval ⟨.builtins,silent,root⟩ element scope) none elements =
      .ok pairs) :
    ∃ keyOf : Json → Json, (∀ element ∈ elements, key.eval ⟨.builtins,silent,root⟩ element scope = .ok (keyOf element)) ∧
      pairs = elements.map (fun element => (keyOf element,element)) ∧ Preordered (elements.map keyOf) := by
  have begun : ∀ first ∈ (none : Option Kind), first = .number ∨ first = .string := nofun
  obtain ⟨paired,evaluated,kind,comparable,_,kinds⟩ := Builtin.keyed_ok begun done
  refine ⟨_,evaluated,paired,.of_kind (List.forall_mem_map.mpr fun element present => ?_) comparable
    (List.forall_mem_map.mpr kinds)⟩
  exact eval_formed rooted key element scope (formed element present) bound _ (evaluated element present)

variable (rooted : root.WellFormed) (formed : v.WellFormed)
  (bound : ∀ name value, scope.get? name = some value → value.WellFormed)
  (given : subject.eval ⟨.builtins,silent,root⟩ v scope = .ok (.array elements))
include rooted formed bound given

theorem given_formed : ∀ element ∈ elements, element.WellFormed :=
  (eval_formed rooted subject v scope formed bound _ given).elements

theorem plain_extremes (passed : Builtin.sort.signature.validate "sort" [.value (.array elements)] = .ok ()) :
    let answer (name : String) := (Expr.call name [subject]).eval ⟨.builtins,silent,root⟩ v scope
    ∃ sorted greatest, answer "sort" = .ok (.array sorted) ∧ sorted.Perm elements ∧
      answer "min" = .ok (sorted.head?.getD .null) ∧ answer "max" = .ok (greatest.getD .null) ∧
      LikeLast id elements sorted greatest := by
  intro answer
  have ordered := sort_preordered (given_formed rooted formed bound given) passed
  rw [← List.map_id elements] at ordered
  have least := eval_ranked .min (Builtin.extremeBody .lt) rfl (fun _ => rfl) given passed
  have greatest := eval_ranked .max (Builtin.extremeBody .gt) rfl (fun _ => rfl) given passed
  refine ⟨_,_,eval_sort given passed,(sortOn_stable ordered).kept,?_,greatest,extremeOn_likeLast ordered⟩
  rw [← extremeOn_least ordered]
  exact least

theorem keyed_extremes (key : Expr) :
    let answer (name : String) := (Expr.call name [subject,.reference key]).eval ⟨.builtins,silent,root⟩ v scope
    let run (element : Json) := key.eval ⟨.builtins,silent,root⟩ element scope
    (∃ keyOf sorted greatest, (∀ element ∈ elements, run element = .ok (keyOf element)) ∧
      answer "sort_by" = .ok (.array sorted) ∧ sorted.Perm elements ∧
      answer "min_by" = .ok (sorted.head?.getD .null) ∧ answer "max_by" = .ok (greatest.getD .null) ∧
      LikeLast keyOf elements sorted greatest) ∨
    ∃ fault, Builtin.KeysFault run elements fault ∧
      ∀ name ∈ ["sort_by","min_by","max_by"], answer name = Function.hush silent (.error (fault name)) := by
  intro answer run
  have sorts := eval_byKey .sortBy (fun pairs => .array ((sortOn (·.1) pairs).map (·.2))) rfl (fun _ => rfl) key given
  have least := eval_byKey .minBy (fun pairs => ((extremeOn .lt (·.1) pairs).map (·.2)).getD .null) rfl (fun _ => rfl)
    key given
  have greatest := eval_byKey .maxBy (fun pairs => ((extremeOn .gt (·.1) pairs).map (·.2)).getD .null) rfl
    (fun _ => rfl) key given
  rcases Builtin.keyed_uniform run none elements with ⟨pairs,done⟩ | ⟨fault,one,raised⟩
  · obtain ⟨keyOf,evaluated,rfl,ordered⟩ := keyed_ordered rooted (given_formed rooted formed bound given) bound key
      (done "sort_by")
    rw [done] at sorts least greatest
    refine .inl ⟨keyOf,sortOn keyOf elements,extremeOn .gt keyOf elements,evaluated,sorts.trans ?_,
      (sortOn_stable ordered).kept,least.trans ?_,greatest.trans ?_,extremeOn_likeLast ordered⟩
    · rw [← sortOn_paired]
      rfl
    · rw [← extremeOn_least ordered,← extremeOn_paired]
      rfl
    · rw [← extremeOn_paired]
      rfl
  · rw [raised] at sorts least greatest
    refine .inr ⟨fault,one,fun name member => ?_⟩
    obtain rfl | rfl | rfl : name = "sort_by" ∨ name = "min_by" ∨ name = "max_by" := by simpa using member
    · exact sorts
    · exact least
    · exact greatest

end

-- The least is what stands first in order and the greatest what ties first with the last. By keys
-- all three look at the same keys, so that each of them fails where the others do.
theorem Expr.eval_extremes (subject : Expr) (silent : Bool) (root v : Json) (scope : Scope Json)
    (rooted : root.WellFormed) (formed : v.WellFormed)
    (bound : ∀ name value, scope.get? name = some value → value.WellFormed) (elements : List Json)
    (given : subject.eval ⟨.builtins,silent,root⟩ v scope = .ok (.array elements)) :
    let answer (name : String) (arguments : List Expr) := (Expr.call name arguments).eval ⟨.builtins,silent,root⟩ v scope
    (Builtin.sort.signature.validate "sort" [.value (.array elements)] = .ok () →
      ∃ sorted greatest, answer "sort" [subject] = .ok (.array sorted) ∧ sorted.Perm elements ∧
        answer "min" [subject] = .ok (sorted.head?.getD .null) ∧
        answer "max" [subject] = .ok (greatest.getD .null) ∧ LikeLast id elements sorted greatest) ∧
    ∀ key,
      (∃ keyOf sorted greatest,
        (∀ element ∈ elements, key.eval ⟨.builtins,silent,root⟩ element scope = .ok (keyOf element)) ∧
        answer "sort_by" [subject,.reference key] = .ok (.array sorted) ∧ sorted.Perm elements ∧
        answer "min_by" [subject,.reference key] = .ok (sorted.head?.getD .null) ∧
        answer "max_by" [subject,.reference key] = .ok (greatest.getD .null) ∧ LikeLast keyOf elements sorted greatest) ∨
      ∃ fault, Builtin.KeysFault (fun element => key.eval ⟨.builtins,silent,root⟩ element scope) elements fault ∧
        ∀ name ∈ ["sort_by","min_by","max_by"],
          answer name [subject,.reference key] = Function.hush silent (.error (fault name)) := by
  intro answer
  refine ⟨fun passed => ?_,fun key => ?_⟩
  · exact plain_extremes rooted formed bound given passed
  · exact keyed_extremes rooted formed bound given key

theorem headed {sorted : List Json} {first : Json}
    (least : .ok (sorted.head?.getD .null) = (.ok first : Except EvalError Json)) (present : first ≠ .null) :
    ∃ others, sorted = first :: others := by
  cases sorted with
  | nil => exact absurd (Except.ok.inj least).symm present
  | cons other others =>
      obtain rfl : other = first := Except.ok.inj least
      exact ⟨others,rfl⟩

-- Two comes twice, as an integer and as a float: the first of them is the greatest, though the other
-- one is the last in order. By a key that ties all three the one that came first is least and greatest.
theorem Expr.eval_extremes_ties :
    let one : Json := .number (.float (.ofInt 1))
    let two : Json := .number (.int 2)
    let v : Json := .array [two,one,.number (.float (.ofInt 2))]
    let answer (name : String) (arguments : List Expr) := (Expr.call name arguments).eval ⟨.builtins,false,v⟩ v .empty
    let byType : List Expr := [.current,.reference (.call "type" [.current])]
    v.WellFormed ∧ Builtin.sort.signature.validate "sort" [.value v] = .ok () ∧
      answer "min" [.current] = .ok one ∧ answer "max" [.current] = .ok two ∧
      (∃ others, answer "sort" [.current] = .ok (.array (one :: others))) ∧
      answer "min_by" byType = .ok two ∧ answer "max_by" byType = .ok two ∧
      ∃ others, answer "sort_by" byType = .ok (.array (two :: others)) := by
  intro one two v answer byType
  have formed : v.WellFormed := by
    have finite : (Number.Binary64.ofInt 1).isFinite = true := by decide +kernel
    have finite' : (Number.Binary64.ofInt 2).isFinite = true := by decide +kernel
    exact .array (List.forall_mem_cons.mpr ⟨.number ⟨by decide,by decide⟩,List.forall_mem_cons.mpr
      ⟨.number finite,List.forall_mem_singleton.mpr (.number finite')⟩⟩)
  have passed : Builtin.sort.signature.validate "sort" [.value v] = .ok () := rfl
  obtain ⟨plain,byKey⟩ := Expr.eval_extremes .current false v v .empty formed formed nofun _ rfl
  have less : compare? one two = some .lt := by decide +kernel
  have tied : compare? (.number (.float (.ofInt 2))) two = some .eq := by decide +kernel
  have greater : compare? (.number (.float (.ofInt 2))) one = some .gt := by decide +kernel
  have least : answer "min" [.current] = .ok one := by
    have called : answer "min" [.current] = .ok (Builtin.extremeBody .lt v) := rfl
    rw [called]
    simp [v,Builtin.extremeBody,Json.elements,extremeOn,challenge,less,greater]
  have greatest : answer "max" [.current] = .ok two := by
    have called : answer "max" [.current] = .ok (Builtin.extremeBody .gt v) := rfl
    rw [called]
    simp [v,Builtin.extremeBody,Json.elements,extremeOn,challenge,less,tied]
  have equal : compare? (.string "number") (.string "number") = some .eq := by decide
  have leastBy : answer "min_by" byType = .ok two := by
    have called : answer "min_by" byType = .ok (((extremeOn .lt (·.1)
      (v.elements.map fun element => (Json.string "number",element))).map (·.2)).getD .null) := rfl
    rw [called]
    simp [v,Json.elements,extremeOn,challenge,equal]
  have greatestBy : answer "max_by" byType = .ok two := by
    have called : answer "max_by" byType = .ok (((extremeOn .gt (·.1)
      (v.elements.map fun element => (Json.string "number",element))).map (·.2)).getD .null) := rfl
    rw [called]
    simp [v,Json.elements,extremeOn,challenge,equal]
  refine ⟨formed,passed,least,greatest,?_,leastBy,greatestBy,?_⟩
  · obtain ⟨sorted,_,given,_,same,_⟩ := plain passed
    obtain ⟨others,rfl⟩ := headed (same.symm.trans least) (by simp [one])
    exact ⟨others,given⟩
  · rcases byKey (.call "type" [.current]) with ⟨_,sorted,_,_,given,_,same,_⟩ | ⟨fault,_,raised⟩
    · obtain ⟨others,rfl⟩ := headed (same.symm.trans leastBy) (by simp [two])
      exact ⟨others,given⟩
    · have failed := (raised "min_by" (by decide)).symm.trans leastBy
      have spoken : Function.hush false (.error (fault "min_by")) = .error (fault "min_by") :=
        Function.hush_quiet fun on => absurd on Bool.false_ne_true
      cases spoken.symm.trans failed

end JsonQuery
