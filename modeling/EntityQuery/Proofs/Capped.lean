/-
EntityQuery/Proofs/Capped.lean

A cap on the rows never shortens an answer in silence.

With a cap, the store is asked for one row more than the cap.  What it gives
then is the beginning of what it gives without a limit, since rows are cut off
after joining, filtering and sorting, and fails if and as it does without one
(`Planning.PlanOf.run_limitedTo`).  So a result within the cap is the whole
one, and a result beyond it is refused before its rows are looked at, whatever
is in them (`Executor.outcome_within`, `Executor.outcome_beyond`).

A limit has 64 bits: the greatest cap leaves no room for the row after it, and
there is no such row either, since the rows of a result are counted in 64 bits.

Rows are sorted before they are cut off, so a cap has no say in whether the
store gives up sorting.  Where it does not, executing on tables is executing on
their answers (`Executor.execute_run?`).
-/
import EntityQuery.Proofs.Apart
import EntityQuery.Proofs.Navigation
import EntityQuery.Proofs.Ordered

namespace EntityQuery

/-! ### The beginning of a result -/

namespace Planning

variable {s : QuerySchema} {named : String → Prop} {vars : Variables} {field : Document.Field}
variable {plan : RootPlan} {entity : EntityType} {select : Document.Field}
variable {gs : List SelectedField}

/-- A planned query with a limit gives the first rows of what it gives without
one, and fails in the same way. -/
theorem PlanOf.run_limitedTo [Store.Disorder] (p : PlanOf s named vars field plan entity select gs)
    (tables : Tables) (limit : Option Nat) :
    tables.run (plan.query.limitedTo limit) =
      (tables.run plan.query).map (Tables.cutOff limit) := by
  -- A plan has no limit of its own, so that the run without one is the case of `none`.
  have unlimited : plan.query = plan.query.limitedTo none := by
    simp only [Query.limitedTo]
    rw [← p.limit]
  cases table : Keyed.find? tables plan.query.table with
  | none =>
    have unknown : ∀ limit, tables.run (plan.query.limitedTo limit) =
        .error (.unknownTable plan.query.table) := fun limit =>
      Tables.run_unknown (q := plan.query.limitedTo limit) table
    rw [unknown, unlimited, unknown]
    rfl
  | some rootRows =>
    rw [unlimited]
    show tables.run (plan.query.limitedTo limit) =
      (tables.run (plan.query.limitedTo none)).map (Tables.cutOff limit)
    rw [p.run_arranged table, p.run_arranged table]
    show Except.ok _ = Except.ok (Tables.cutOff limit _)
    rw [Tables.arranged, Tables.arranged, Tables.cutOff_map]
    rfl

end Planning

/-! ### Roots with a cap -/

namespace Executor

open Planning

variable {s : QuerySchema} {named : String → Prop} {vars : Variables} {field : Document.Field}
variable {plan : RootPlan} {entity : EntityType} {select : Document.Field}
variable {gs : List SelectedField} {tables : Tables} {rows : List Row} {cap : Nat}

/-- The rows that come back under a cap, and what is made of them. -/
theorem outcome_capped [Store.Disorder] (p : PlanOf s named vars field plan entity select gs)
    (planned : planRootField s vars field = .ok plan) :
    outcome ⟨s, some cap⟩ tables.run vars field = answer ⟨s, some cap⟩ plan
      ((tables.run plan.query).map (List.take (min (cap + 1) greatestLimit))) := by
  unfold outcome
  rw [planned]
  show answer ⟨s, some cap⟩ plan (tables.run (plan.query.limitedTo (some _))) = _
  rw [p.run_limitedTo]
  rfl

/-- Without a cap, the rows are those of the query as it was planned. -/
theorem outcome_uncapped [Store.Disorder] (p : PlanOf s named vars field plan entity select gs)
    (planned : planRootField s vars field = .ok plan) :
    outcome ⟨s, none⟩ tables.run vars field = answer ⟨s, none⟩ plan (tables.run plan.query) := by
  unfold outcome
  rw [planned]
  show answer ⟨s, none⟩ plan (tables.run (plan.query.limitedTo none)) = _
  rw [p.run_limitedTo]
  cases tables.run plan.query <;> rfl

/-- A result within the cap is answered as without a cap. -/
theorem outcome_within [Store.Disorder] (p : PlanOf s named vars field plan entity select gs)
    (planned : planRootField s vars field = .ok plan) (run : tables.run plan.query = .ok rows)
    (inRange : cap ≤ greatestLimit) (within : rows.length ≤ cap) :
    outcome ⟨s, some cap⟩ tables.run vars field = outcome ⟨s, none⟩ tables.run vars field := by
  have whole : rows.take (min (cap + 1) greatestLimit) = rows :=
    List.take_of_length_le (by omega)
  have passed : checkRows ⟨s, some cap⟩ rows = .ok () := if_neg (by omega)
  rw [outcome_capped p planned, outcome_uncapped p planned, run]
  show answer _ _ (.ok (rows.take _)) = _
  rw [whole]
  unfold answer
  simp only [Except.mapError, Outcome.ok_bind, passed]
  rfl

/-- A cap that has room for the rows does not change what a root is answered
with. -/
theorem executeRoot_within [Store.Disorder] (p : PlanOf s named vars field plan entity select gs)
    (planned : planRootField s vars field = .ok plan) (run : tables.run plan.query = .ok rows)
    {cap : Option Nat} (room : ∀ n ∈ cap, rows.length ≤ n ∧ n ≤ greatestLimit) :
    (executeRoot ⟨s, cap⟩ (fun q => (pure (tables.run q) : Id _)) vars field).run =
      (executeRoot ⟨s, none⟩ (fun q => (pure (tables.run q) : Id _)) vars field).run := by
  have answered : ∀ cap, (executeRoot ⟨s, cap⟩ (fun q => (pure (tables.run q) : Id _)) vars
      field).run = outcome ⟨s, cap⟩ tables.run vars field := by
    intro cap
    unfold executeRoot outcome
    cases planRootField s vars field <;> rfl
  rw [answered, answered]
  cases cap with
  | none => rfl
  | some n => exact outcome_within p planned run (room n rfl).2 (room n rfl).1

/-- A result beyond the cap is refused. -/
theorem outcome_beyond [Store.Disorder] (p : PlanOf s named vars field plan entity select gs)
    (planned : planRootField s vars field = .ok plan) (run : tables.run plan.query = .ok rows)
    (room : cap < greatestLimit) (beyond : cap < rows.length) :
    outcome ⟨s, some cap⟩ tables.run vars field = .error (.rowLimit cap) := by
  have one : (rows.take (min (cap + 1) greatestLimit)).length = cap + 1 := by
    rw [List.length_take]
    omega
  have refused : checkRows ⟨s, some cap⟩ (rows.take (min (cap + 1) greatestLimit)) =
      .error (.rowLimit cap) := if_pos (by omega)
  rw [outcome_capped p planned, run]
  show answer _ _ (.ok (rows.take _)) = _
  unfold answer
  simp only [Except.mapError, Outcome.ok_bind, refused]
  rfl

/-- A store that fails does so with and without a cap. -/
theorem outcome_failed [Store.Disorder] (p : PlanOf s named vars field plan entity select gs)
    (planned : planRootField s vars field = .ok plan) {e : StoreError}
    (run : tables.run plan.query = .error e) (maxRows : Option Nat) :
    outcome ⟨s, maxRows⟩ tables.run vars field = .error (.store e) := by
  cases maxRows with
  | none =>
    rw [outcome_uncapped p planned, run]
    rfl
  | some cap =>
    rw [outcome_capped p planned, run]
    rfl

/-- **A document is answered unless the sort gives up on one of its roots**,
whatever the cap is, and then by what running the queries gives. -/
theorem execute_run? [Store.Disorder] (x : Executor) (tables : Tables) {text : String}
    {op : Document.Operation} (parsed : Document.parse text = .ok op)
    {operationName : Option String}
    (matching : ∀ requested, operationName = some requested → op.name = some requested)
    (supplied : Variables) {response : Response} :
    x.execute tables.run? text operationName supplied = some response ↔
      (∀ field ∈ leading op.selection, ∀ plan,
        planRootField x.schema (bindVariables op.definitions supplied) field = .ok plan →
          tables.givesUp plan.query = false) ∧
      (x.execute (fun q => (pure (tables.run q) : Id _)) text operationName supplied).run =
        response := by
  have answers : ∀ q r, tables.run? q = some r → tables.run q = r := fun q r given =>
    (Tables.run?_eq_some.1 given).2
  -- The limit of a query comes after its order.
  have answered : ∀ plan, (tables.run? (x.query plan)).isSome = true ↔
      tables.givesUp plan.query = false := by
    intro plan
    show (tables.run? (plan.query.limitedTo x.limit)).isSome = true ↔
      tables.givesUp (plan.query.limitedTo x.limit) = false
    rw [Option.isSome_iff_exists]
    exact ⟨fun ⟨_, given⟩ => (Tables.run?_eq_some.1 given).1,
      fun finished => ⟨_, Tables.run?_eq_some.2 ⟨finished, rfl⟩⟩⟩
  simp only [x.execute_answered answers parsed matching supplied, answered]

/-- The errors of the first root of a key, which fails. -/
theorem Tallied.filter_own {x : Executor} {reply : Query → Except StoreError (List Row)}
    {fields : List Document.Field} {t : Tally} (h : Tallied x reply vars fields t) {key : String}
    (found : fields.find? (·.responseKey = key) = some field) {e : ExecutionError}
    (failed : x.outcome reply vars field = .error e) (own : e.isRepetition = false) :
    Keyed.find? t.data key = some .null ∧
      t.errors.filter (fun e => e.path = [key] ∧ e.error.isRepetition = false) =
        [⟨e, [key]⟩] := by
  have value := h.value key field found
  have errors := h.filter_errors_and found (·.error.isRepetition = false)
  rw [failed] at value errors
  refine ⟨value, errors.trans ?_⟩
  rw [List.filter_replicate_of_neg (by simp [repetition, ExecutionError.isRepetition])]
  simp [faultsOf, own]

/-- **The row cap never shortens an answer in silence.**  A root whose query
has no more rows than the cap is answered under the cap as it is without one,
errors included; one whose query has more rows is answered with null and the
one error that says so.  A store that fails is reported in the same way. -/
theorem execute_capped [Store.Disorder] {name : String} {descriptors : List EntityDescriptor}
    {registry : ScalarRegistry} (built : QuerySchema.build name descriptors registry = .ok s)
    (tables : Tables) (inRange : cap ≤ greatestLimit) {text : String} {op : Document.Operation}
    (parsed : Document.parse text = .ok op) {operationName : Option String}
    (matching : ∀ requested, operationName = some requested → op.name = some requested)
    (supplied : Variables) :
    ∃ data errors data' errors',
      (execute ⟨s, none⟩ (fun q => (pure (tables.run q) : Id _)) text operationName
        supplied).run = ⟨some data, errors⟩ ∧
      (execute ⟨s, some cap⟩ (fun q => (pure (tables.run q) : Id _)) text operationName
        supplied).run = ⟨some data', errors'⟩ ∧
      ∀ key field plan, op.selection.find? (·.responseKey = key) = some field →
        planRootField s (bindVariables op.definitions supplied) field = .ok plan →
        (∀ rows, tables.run plan.query = .ok rows → rows.length ≤ cap →
          (∃ value, Keyed.find? data key = some value ∧ Keyed.find? data' key = some value) ∧
          errors'.filter (·.path = [key]) = errors.filter (·.path = [key])) ∧
        (∀ rows, tables.run plan.query = .ok rows → cap < rows.length →
          (cap < greatestLimit ∨ rows.length ≤ greatestLimit) →
          Keyed.find? data' key = some .null ∧
          errors'.filter (fun e => e.path = [key] ∧ e.error.isRepetition = false) =
            [⟨.rowLimit cap, [key]⟩]) ∧
        (∀ e, tables.run plan.query = .error e →
          (Keyed.find? data key = some .null ∧ Keyed.find? data' key = some .null) ∧
          errors.filter (fun e => e.path = [key] ∧ e.error.isRepetition = false) =
            [⟨.store e, [key]⟩] ∧
          errors'.filter (fun e => e.path = [key] ∧ e.error.isRepetition = false) =
            [⟨.store e, [key]⟩]) := by
  -- Both runs tell their outcome root by root, so that one root decides what stands under its key.
  have holds := fun maxRows => tallied ⟨s, maxRows⟩ tables.run
    (bindVariables op.definitions supplied) op.selection
  refine ⟨_, _, _, _, execute_replied ⟨s, none⟩ tables.run parsed matching supplied,
    execute_replied ⟨s, some cap⟩ tables.run parsed matching supplied, ?_⟩
  intro key field plan found planned
  obtain ⟨entity, -, -, root, -⟩ := planRootField_iff.1 planned
  obtain ⟨select, gs, p⟩ := planOf_of_build built planned root
  refine ⟨fun rows run within => ?_, fun rows run beyond counted => ?_, fun e run => ?_⟩
  · have same := outcome_within p planned run inRange within
    refine ⟨⟨_, (holds none).value key field found, ?_⟩, ?_⟩
    · rw [← same]
      exact (holds (some cap)).value key field found
    · rw [(holds none).errors key field found, (holds (some cap)).errors key field found, same]
  · exact (holds (some cap)).filter_own found
      (outcome_beyond p planned run (by omega) beyond) rfl
  · obtain ⟨value, errors⟩ := (holds none).filter_own found
      (outcome_failed p planned run none) rfl
    obtain ⟨value', errors'⟩ := (holds (some cap)).filter_own found
      (outcome_failed p planned run (some cap)) rfl
    exact ⟨⟨value, value'⟩, errors, errors'⟩

end Executor

/-! ### The small library -/

namespace Sample

/-- A document that asks for all books and all authors. -/
def inventory : String :=
  "\x7bbooks \x7bselect \x7btitle\x7d\x7d authors \x7bselect \x7bname\x7d\x7d\x7d"

/-- How many rows the first root of a key has. -/
def rowCount (op : Document.Operation) (key : String) : Option Nat := do
  let field ← op.selection.find? (·.responseKey = key)
  let plan ← (Planning.planRootField schema (Planning.bindVariables op.definitions [])
    field).toOption
  let rows ← (tables.run plan.query).toOption
  return rows.length

/-- What is counted. -/
theorem exists_of_rowCount {op : Document.Operation} {key : String} {count : Nat}
    (h : rowCount op key = some count) :
    ∃ field plan rows, op.selection.find? (·.responseKey = key) = some field ∧
      Planning.planRootField schema (Planning.bindVariables op.definitions []) field = .ok plan ∧
      tables.run plan.query = .ok rows ∧ rows.length = count := by
  obtain ⟨field, found, h⟩ := Option.bind_eq_some_iff.1 h
  obtain ⟨plan, planned, h⟩ := Option.bind_eq_some_iff.1 h
  obtain ⟨rows, run, h⟩ := Option.bind_eq_some_iff.1 h
  exact ⟨field, plan, rows, found, Outcome.toOption_eq_some.1 planned,
    Outcome.toOption_eq_some.1 run, Option.some.inj h⟩

end Sample

/-- With a cap of two rows, the three books are refused and the author is
answered. -/
theorem execute_capped_library :
    ∃ data errors data' errors',
      (Executor.execute ⟨Sample.schema, none⟩ Sample.source Sample.inventory none []).run =
        ⟨some data, errors⟩ ∧
      (Executor.execute ⟨Sample.schema, some 2⟩ Sample.source Sample.inventory none []).run =
        ⟨some data', errors'⟩ ∧
      Keyed.find? data' "books" = some .null ∧
      errors'.filter (fun e => e.path = ["books"] ∧ e.error.isRepetition = false) =
        [⟨.rowLimit 2, ["books"]⟩] ∧
      ∃ value, Keyed.find? data "authors" = some value ∧
        Keyed.find? data' "authors" = some value := by
  have ran : ((Document.parse Sample.inventory).toOption.map fun op =>
      (Sample.rowCount op "books", Sample.rowCount op "authors")) = some (some 3, some 1) := by
    decide +kernel
  obtain ⟨op, parsed, ran⟩ := Option.map_eq_some_iff.1 ran
  have parsed := Outcome.toOption_eq_some.1 parsed
  obtain ⟨books, authors⟩ := Prod.mk.inj ran
  have unnamed : ∀ requested, (none : Option String) = some requested → op.name = some requested :=
    fun _ h => nomatch h
  have inRange : 2 ≤ Executor.greatestLimit := by decide
  obtain ⟨data, errors, data', errors', run, run', each⟩ :=
    Executor.execute_capped Sample.schema_built Sample.tables inRange parsed unnamed []
  obtain ⟨field, plan, rows, found, planned, counted, three⟩ := Sample.exists_of_rowCount books
  obtain ⟨field', plan', rows', found', planned', counted', one⟩ :=
    Sample.exists_of_rowCount authors
  obtain ⟨null, refused⟩ := (each _ _ _ found planned).2.1 rows counted (by omega)
    (.inl (by decide))
  obtain ⟨same, -⟩ := (each _ _ _ found' planned').1 rows' counted' (by omega)
  exact ⟨data, errors, data', errors', run, run', null, refused, same⟩

end EntityQuery
