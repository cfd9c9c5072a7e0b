/-
EntityQuery/Proofs/Unmatched.lean

What a null operand finds.

Null belongs to every scalar, so an operand that stands for null can be given
to every operator, and to a membership test also a list of such operands
(`Operand.Nothing`).  Equality turns it into a test for null.  The other
operators compare with it, which is unknown, or have no candidate that is equal
to anything.

A substring search is the exception.  It does not search for the value but for
a text of the value (`Coercion.needle`), and null has a text there, as it has
in JSON: the search finds the rows whose text has `null` in it.  So of all
these operators, this one is true of a row for a null operand, and of exactly
those rows (`Predicate.eval_nothing`, `Sample.null_sought`).
-/
import EntityQuery.Proofs.Contained
import EntityQuery.Proofs.Reached

namespace EntityQuery

open Store

variable {vars : Variables} {operator : FilterOperator} {operand : Operand} {b : ScalarBinding}
variable {scalar context : String} {kind : ScalarKind} {cell v : Json}

/-! ### Operands without a value -/

/-- The operand stands for null, or for a list of nulls where candidates are
asked for. -/
inductive Operand.Nothing (vars : Variables) (operator : FilterOperator) (operand : Operand) :
    Prop
  | null (resolved : operand.resolve vars = .ok .null)
  | nulls {items : List Operand} (list : operator.takesList = true)
      (given : operand.items? vars = .ok (some items))
      (each : ∀ o ∈ items, o.resolve vars = .ok .null)

/-- What stands for null is no list. -/
theorem Operand.items?_of_null (resolved : operand.resolve vars = .ok .null) :
    operand.items? vars = .ok none := by
  cases operand with
  | «variable» name =>
    rw [items?, show variableValue vars name = .ok .null from resolved]
    rfl
  | constant value => rfl
  | list items =>
    obtain ⟨js, -, array⟩ := Outcome.bind_eq_ok.1 resolved
    cases array
  | object entries => rfl

/-- What is given to an operator without candidates stands for null itself. -/
theorem Operand.Nothing.resolved (nothing : operand.Nothing vars operator)
    (single : operator.takesList = false) : operand.resolve vars = .ok .null := by
  cases nothing with
  | null resolved => exact resolved
  | nulls list => exact nomatch single.symm.trans list

namespace Predicate

theorem mapM_coerce_of_null {items : List Operand}
    (each : ∀ o ∈ items, o.resolve vars = .ok .null) :
    items.mapM (coerce vars context b) = .ok (List.replicate items.length .null) := by
  rw [Outcome.mapM_ok fun o ho => coerce_of_null (each o ho), List.map_const']

variable (b context) in
/-- All candidates of such an operand are null. -/
theorem candidates_of_nothing (nothing : operand.Nothing vars operator) :
    ∃ n, candidates vars context b operand = .ok (List.replicate n .null) := by
  cases nothing with
  | null resolved =>
    refine ⟨1, ?_⟩
    rw [candidates, Operand.items?_of_null resolved]
    exact mapM_coerce_of_null (List.forall_mem_singleton.2 resolved)
  | @nulls items list given each =>
    refine ⟨items.length, ?_⟩
    rw [candidates, given]
    exact mapM_coerce_of_null each

end Predicate

/-! ### Verdicts -/

/-- Operators that hold a field against what is given: by its order, as text, or
among candidates. -/
def FilterOperator.seeks : FilterOperator → Bool
  | .gt => true
  | .ge => true
  | .lt => true
  | .le => true
  | .like => true
  | .locate => true
  | .oneOf => true
  | _ => false

theorem FilterOperator.takesFlag_of_seeks (seeks : operator.seeks = true) :
    operator.takesFlag = false := by
  cases operator <;> first | rfl | cases seeks

namespace Comparison

/-- Null is stored as null where values are stored as they are given. -/
theorem storedValue_null (plain : b.coercion = .plain scalar kind) :
    storedValue b .null = .null := by
  rw [storedValue, plain]
  cases b.storage <;> rfl

/-- No value is one of nulls. -/
theorem isTrue_membership_nulls (n : Nat) :
    isTrue (Store.membership cell (List.replicate n .null) true) = false := by
  by_cases null : cell = .null
  · rw [null]
    rfl
  · have absent : (List.replicate n .null).any (isEqual cell) = false := by
      refine List.any_eq_false.2 fun c hc => ?_
      rw [List.eq_of_mem_replicate hc]
      cases cell <;> first | exact absurd rfl null | exact Bool.false_ne_true
    rw [Store.membership, absent]
    cases cell.isNull <;> rfl

/-- A comparison with null is true of a cell only if it searches for the word
in the text of the cell. -/
theorem isTrue_verdict_null (plain : b.coercion = .plain scalar kind)
    (seeks : operator.seeks = true) (single : operator.takesList = false) :
    isTrue (verdict b operator .null cell) = true ↔
      operator = .locate ∧ ∃ text, cell.textOrSelf? = some text ∧ Occurs "null" text := by
  have unknown : ∀ o, comparison o (storedCell b cell) (storedValue b .null) = .null := by
    intro o
    rw [storedValue_null plain, comparison, show Json.null.isNull = true from rfl, Bool.or_true]
    rfl
  -- Comparing with null is unknown; a search looks for the word instead.
  cases operator with
  | locate =>
    have word : b.coercion.needle .null = "null" := by rw [plain]; rfl
    simp only [verdict, word, true_and]
    exact (place_locateValue "null" cell).isTrue_iff
  | gt | ge | lt | le => simp [verdict, unknown, Store.isTrue]
  | like =>
    have unlike : likeValue (storedCell b cell) .null = .null := by
      rw [likeValue]
      cases (storedCell b cell).textOrSelf? <;> rfl
    simp [verdict, storedValue_null plain, unlike, Store.isTrue]
  | oneOf => cases single
  | _ => cases seeks

end Comparison

namespace Predicate

/-- Null operands are taken by all of these operators. -/
theorem operandFault_of_nothing (seeks : operator.seeks = true)
    (nothing : operand.Nothing vars operator) :
    operandFault vars context b operator operand = none := by
  have noFlag := FilterOperator.takesFlag_of_seeks seeks
  rw [operandFault, noFlag]
  cases list : operator.takesList with
  | true =>
    obtain ⟨n, given⟩ := candidates_of_nothing b context nothing
    exact Outcome.fault_eq_none.2 ⟨_, given⟩
  | false => exact Outcome.fault_eq_none.2 ⟨_, coerce_of_null (nothing.resolved list)⟩

/-- Of a null operand a verdict is true only if it searches for the word in
the text of the cell. -/
theorem verdict_of_nothing (plain : b.coercion = .plain scalar kind)
    (seeks : operator.seeks = true) (nothing : operand.Nothing vars operator)
    (h : verdict vars context b operator operand cell = .ok v) :
    isTrue v = true ↔
      operator = .locate ∧ ∃ text, cell.textOrSelf? = some text ∧ Occurs "null" text := by
  have noFlag := FilterOperator.takesFlag_of_seeks seeks
  cases list : operator.takesList with
  | true =>
    -- Of the operators that take a list only this one seeks something.
    obtain rfl : operator = .oneOf := by
      cases operator with
      | oneOf => rfl
      | noneOf => cases seeks
      | _ => cases list
    obtain ⟨n, given⟩ := candidates_of_nothing b context nothing
    rw [verdict, noFlag, list, given] at h
    cases h
    rw [List.map_replicate, Comparison.storedValue_null plain]
    simpa using Comparison.isTrue_membership_nulls n
  | false =>
    rw [verdict, noFlag, list, coerce_of_null (nothing.resolved list)] at h
    cases h
    exact Comparison.isTrue_verdict_null plain seeks list

open Planner Joins

variable {s : QuerySchema} {root : EntityType} {path between : List String} {g : SchemaField}

/-- **A null operand finds nothing, except in a search for its text.**  Leaves
with a null operand compile.  Of a row that is chosen for its path such a leaf
has a truth value, and this is `yes` exactly if the leaf is a substring search
and `null` occurs in the text of the cell. -/
theorem eval_nothing {d : Draft} (leads : s.LeadsTo root path between g b)
    (plain : b.coercion = .plain scalar kind) (supported : b.supports operator = true)
    (seeks : operator.seeks = true) (nothing : operand.Nothing vars operator)
    (sequential : d.parameters.Sequential) :
    ∃ e d', Gives (compileLeaf s root vars ⟨path, operator.token, operand⟩) d e d' ∧
      ∀ binding choice, AgreesAt d'.joins binding choice between →
        ∃ t, eval d'.parameters binding e = .ok (Truth.toJson t) ∧
          (t = .yes ↔ operator = .locate ∧
            ∃ text, (cellOf (choice between) g.descriptor.column).textOrSelf? = some text ∧
              Occurs "null" text) := by
  have taken : operandFault vars (".".intercalate path) b operator operand = none :=
    operandFault_of_nothing seeks nothing
  obtain ⟨e, d', compiled⟩ := leads.exists_compiled supported taken d
  refine ⟨e, d', compiled, fun binding choice agrees => ?_⟩
  obtain ⟨v, said, value⟩ := leads.eval supported compiled sequential agrees
  obtain ⟨t, rfl⟩ := isTruth_verdict said
  exact ⟨t, value, Truth.isTrue_toJson.symm.trans (verdict_of_nothing plain seeks nothing said)⟩

end Predicate

/-! ### The small library -/

namespace Sample

open Predicate Planner

/-- A book with the word in its title. -/
def annulled : Row := [("id", .string "1"), ("title", .string "annulled")]

/-- A search for null finds the book with the word in its title, which is like
no null and not among nulls. -/
theorem null_sought :
    (∃ e d', Gives (compileLeaf schema books [] ⟨["title"], "LOCATE", .constant .null⟩)
        Draft.empty e d' ∧ eval d'.parameters [("t0", some annulled)] e = .ok (.bool true)) ∧
      run [("books", [annulled])] [] ((allBooks [leaf "id"]).restrictedBy
          (.tests "title" .locate .null)) =
        .ok (.object [("select", .array [.object [("id", .string "1")]])]) ∧
      run [("books", [annulled])] [] ((allBooks [leaf "id"]).restrictedBy
          (.tests "title" .like .null)) = .ok (.object [("select", .array [])]) ∧
      run [("books", [annulled])] [] ((allBooks [leaf "id"]).restrictedBy
          (.tests "title" .oneOf (.list [.null]))) = .ok (.object [("select", .array [])]) :=
  ⟨⟨_, _, rfl, rfl⟩, rfl, rfl, rfl⟩

end Sample

open Predicate Planner Joins in
/-- Searched for null, the book with the word in its title is found. -/
theorem eval_nothing_library :
    ∃ e d', Gives (compileLeaf Sample.schema Sample.books []
        ⟨["title"], FilterOperator.token .locate, .constant .null⟩) Draft.empty e d' ∧
      eval d'.parameters [("t0", some Sample.annulled)] e = .ok (.bool true) := by
  have nothing : Operand.Nothing [] .locate (.constant .null) := .null rfl
  obtain ⟨e, d', compiled, truth⟩ := eval_nothing (d := Draft.empty) Sample.title_leadsTo rfl rfl
    rfl nothing rfl
  have agrees : AgreesAt d'.joins [("t0", some Sample.annulled)] (fun _ => some Sample.annulled)
    [] := agreesAt_root rfl
  obtain ⟨t, value, found⟩ := truth _ _ agrees
  obtain rfl := found.2 ⟨rfl, "annulled", rfl, "an", "ed", by decide⟩
  exact ⟨e, d', compiled, value⟩

end EntityQuery
