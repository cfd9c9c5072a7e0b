/-
EntityQuery/Proofs/Sought.lean

A substring search finds the rows whose text has the needle in it.

On its way from an object to an answer a text is encoded when it is stored,
cast to text when it is searched, and compared with a needle that is encoded
apart from it.  For texts, and for documents in their JSON text, the two
encodings meet: the search answers the place of the needle in the text of what
was inserted, and the condition is true if the needle occurs in it
(`Planning.run_sought`).

The leaf of a filter says this of every field.  Criteria can only name fields
that are not called like a combinator: a field called `OR` exists, but what
stands under it in criteria are operands (`Sample.not_sought`).
-/
import EntityQuery.Proofs.Found
import EntityQuery.Proofs.Ordered
import EntityQuery.Proofs.Substring

namespace EntityQuery

open Store

/-! ### Texts of values -/

namespace ScalarBinding

variable {b : ScalarBinding}

/-- A scalar of plain texts, or one of documents.  How its column is compared,
and which other operators it has, does not matter to a search. -/
inductive Searchable (b : ScalarBinding) : Prop
  | text {scalar : String} (kind : b.kind = .text) (plain : b.coercion = .plain scalar .text)
  | document (kind : b.kind = .payload) (document : b.coercion = .document)

theorem Searchable.supports (h : b.Searchable) : b.supports .locate = true := by
  cases h with
  | text kind plain => simp [ScalarBinding.supports, kind]
  | document kind document => simp [ScalarBinding.supports, isPayload, kind]

/-- What a search looks through: a text itself, or the JSON text of a document;
nothing if the value is null. -/
inductive HasText (b : ScalarBinding) : Json → Option String → Prop
  | null : b.HasText .null none
  | string (kind : b.kind = .text) (text : String) : b.HasText (.string text) (some text)
  | document (kind : b.kind = .payload) {value : Json} (nonnull : value.isNull = false) :
      b.HasText value (some value.text)

/-- The text of a value is that of its stored form. -/
theorem HasText.textOrSelf? {value : Json} {text : Option String} (h : b.HasText value text)
    (searchable : b.Searchable) {field : SchemaField} (bound : field.binding = some b) :
    (Tables.storedForm field value).textOrSelf? = text := by
  simp only [Tables.storedForm]
  rw [bound]
  -- What a search goes through is the text of a string, and the text of a document.
  cases h with
  | null => rfl
  | string kind text =>
    cases searchable with
    | text _ plain =>
      show (b.coercion.stored (.string text)).textOrSelf? = some text
      rw [plain]
      rfl
    | document other _ => cases kind.symm.trans other
  | document kind nonnull =>
    cases searchable with
    | text other _ => cases kind.symm.trans other
    | document _ document =>
      simp only [nonnull, Bool.false_eq_true, if_false]
      rw [document]
      rfl

end ScalarBinding

/-! ### The rows of a query with a test of the root -/

/-- What a query answers for a row of its root, before the answers are
sorted. -/
def Tables.answersFor (tables : Tables) (q : Query) (row : Row) : List (List Json × Row) :=
  (tables.spread q.joins [(rootAlias, some row)]).map (answer q.order q.columns)

namespace Planning

open Planner Joins

variable {s : QuerySchema} {named : String → Prop} {vars : Variables} {field : Document.Field}
variable {plan : RootPlan} {entity : EntityType} {select : Document.Field}
variable {gs : List SelectedField} {tables : Tables} {rootRows : List Row}

/-- Every root row is answered, if it is kept. -/
theorem PlanOf.answersFor_ne_nil (p : PlanOf s named vars field plan entity select gs)
    (tables : Tables) (row : Row) : tables.answersFor plan.query row ≠ [] :=
  mt List.map_eq_nil_iff.1 (Tables.spread_root_ne_nil p.joins row)

/-- A query with a condition on the root answers the root rows on which it is
true. -/
theorem PlanOf.run_rootOnly [Disorder] (p : PlanOf s named vars field plan entity select gs)
    (rootOnly : ∀ f, plan.filter = some f → f.RootOnly)
    (table : Keyed.find? tables plan.query.table = some rootRows) (limit : Option Nat) :
    tables.run (plan.query.limitedTo limit) = .ok (Tables.arranged plan.query.order limit
      ((rootRows.filter plan.query.holds).flatMap (tables.answersFor plan.query))) := by
  rw [p.run_arranged table limit, p.flatMap_kept rootOnly]
  simp only [Tables.bindings]
  rw [List.map_flatMap]
  rfl

/-- A query without a condition answers all root rows. -/
theorem PlanOf.run_unrestricted [Disorder] (p : PlanOf s named vars field plan entity select gs)
    (unrestricted : plan.filter = none)
    (table : Keyed.find? tables plan.query.table = some rootRows) (limit : Option Nat) :
    tables.run (plan.query.limitedTo limit) = .ok (Tables.arranged plan.query.order limit
      (rootRows.flatMap (tables.answersFor plan.query))) := by
  rw [p.run_rootOnly (rootOnly_of_unrestricted unrestricted) table limit,
    p.filter_holds unrestricted]

/-! ### Searching a field -/

section Search

variable {name : String} {g : SchemaField} {b : ScalarBinding} {operand : Operand} {v : Json}

/-- The test for a substring asks whether its place comes after zero; nothing
is joined for it. -/
theorem gives_compile_locate (found : entity.field? name = some g) (bound : g.binding = some b)
    (searchable : b.Searchable) (accepted : Predicate.coerce vars name b operand = .ok v)
    (d : Draft) :
    ∃ needle d', Gives (bindValue (.string (b.coercion.needle v))) d needle d' ∧
      Gives (Predicate.compile s entity vars (.leaf ⟨[name], FilterOperator.locate.token, operand⟩))
        d (.binary .greaterThan (.locate needle (.toText (.column rootAlias g.descriptor.column)))
          (.literal (.integer 0))) d' ∧ d'.joins = d.joins := by
  rw [compile_tests found bound searchable.supports rfl rfl accepted]
  have bind : Gives (bindValue (.string (b.coercion.needle v))) d _ _ :=
    gives_bindValue.2 ⟨rfl, rfl⟩
  exact ⟨_, _, bind, gives_bind.2 ⟨_, _, bind, gives_pure.2 ⟨rfl, rfl⟩⟩, rfl⟩

/-- Where the root is bound to a row, the search looks through the text of the
cell. -/
theorem eval_locate {needle : String} {d d' : Draft} {e : Expr}
    (bind : Gives (bindValue (.string needle)) d e d') (sequential : d.parameters.Sequential)
    {binding : Binding} {row : Row} (covers : Keyed.find? binding rootAlias = some (some row))
    (column : String) :
    eval d'.parameters binding (.locate e (.toText (.column rootAlias column))) =
      .ok (locateValue (.string needle) (textValue (cellOf (some row) column))) := by
  have cell : columnValue binding rootAlias column = .ok (cellOf (some row) column) := by
    simp only [columnValue]
    rw [covers]
    rfl
  rw [eval, Comparison.eval_columnText cell, Outcome.ok_bind, eval_bindValue bind sequential]
  rfl

/-- In the cell of an inserted row, the search answers the place in the text of
what was given to the field. -/
theorem place_of_inserted (found : entity.field? name = some g) (bound : g.binding = some b)
    (searchable : b.Searchable) (alone : entity.Alone g) {value : Json} {text : Option String}
    {row : Row} (hasText : b.HasText value text)
    (inserted : Tables.Inserted s entity name value row) (needle : String) :
    Place needle text (locateValue (.string needle)
      (textValue (cellOf (some row) g.descriptor.column))) := by
  have place := place_locateValue needle (cellOf (some row) g.descriptor.column)
  have cell := inserted.cell found alone
  rwa [cell, hasText.textOrSelf? searchable bound, ← cell] at place

end Search

/-- **A substring search is exact.**  Of a row that was inserted, the leaf of a
filter that seeks a value in the text of a field answers the place of the
needle in this text, and is true if the needle occurs.  A root field without
criteria can be restricted by this test, unless the field is called like a
combinator; then those root rows are answered on which the test is true. -/
theorem run_sought [Disorder] {schemaName : String} {descriptors : List EntityDescriptor}
    {registry : ScalarRegistry} (built : QuerySchema.build schemaName descriptors registry = .ok s)
    -- A field with a column of its own, of text or of documents.
    {name : String} {g : SchemaField} {b : ScalarBinding}
    (found : entity.field? name = some g) (bound : g.binding = some b)
    (searchable : b.Searchable) (alone : entity.Alone g)
    -- What is sought, written out or given by variables.
    {value : Document.Value} {v : Json}
    (accepted : Predicate.coerce vars name b (.ofValue value) = .ok v) :
    -- The leaf, compiled anywhere, on any inserted row.
    (∀ d : Draft, d.parameters.Sequential → ∃ needle place e d',
      Gives (Predicate.compile s entity vars
        (.leaf ⟨[name], FilterOperator.locate.token, .ofValue value⟩)) d e d' ∧
      place = .locate needle (.toText (.column rootAlias g.descriptor.column)) ∧
      e = .binary .greaterThan place (.literal (.integer 0)) ∧
      ∀ w text row, b.HasText w text → Tables.Inserted s entity name w row →
        ∀ binding, Keyed.find? binding rootAlias = some (some row) → ∃ answer truth,
          eval d'.parameters binding place = .ok answer ∧
          Place (b.coercion.needle v) text answer ∧
          eval d'.parameters binding e = .ok truth ∧
          (isTrue truth = true ↔ ∃ t, text = some t ∧ Occurs (b.coercion.needle v) t)) ∧
    -- The root field, restricted by criteria.
    (Criteria.isCombinator name = false → ∀ field plan, s.root? field.name = some entity →
      field.argument? whereArgument = none → planRootField s vars field = .ok plan →
      ∃ plan', planRootField s vars (field.restrictedBy (.tests name .locate value)) = .ok plan' ∧
        (∀ w text row, b.HasText w text → Tables.Inserted s entity name w row →
          (plan'.query.holds row = true ↔
            ∃ t, text = some t ∧ Occurs (b.coercion.needle v) t)) ∧
        ∀ (tables : Tables) rootRows limit,
          Keyed.find? tables plan.query.table = some rootRows →
            tables.run (plan.query.limitedTo limit) =
              .ok (Tables.arranged plan.query.order limit
                (rootRows.flatMap (tables.answersFor plan.query))) ∧
            tables.run (plan'.query.limitedTo limit) =
              .ok (Tables.arranged plan.query.order limit
                ((rootRows.filter plan'.query.holds).flatMap (tables.answersFor plan.query))) ∧
            ∀ row, tables.answersFor plan.query row ≠ []) := by
  have place := fun w text row (hasText : b.HasText w text)
      (inserted : Tables.Inserted s entity name w row) =>
    place_of_inserted found bound searchable alone hasText inserted (b.coercion.needle v)
  refine ⟨fun d sequential => ?_, fun plain field plan root unrestricted planned => ?_⟩
  · obtain ⟨needle, d', bind, compiled, -⟩ :=
      gives_compile_locate found bound searchable accepted d
    refine ⟨needle, _, _, d', compiled, rfl, rfl, ?_⟩
    intro w text row hasText inserted binding covers
    have answered := eval_locate bind sequential covers g.descriptor.column
    have place := place w text row hasText inserted
    exact ⟨_, _, answered, place, eval_binary answered rfl, place.isTrue_iff⟩
  · obtain ⟨select, gs, p⟩ := planOf_of_build built planned root
    have noFilter := p.filter_eq_none unrestricted
    obtain ⟨plan', planned', filter', -, joins, columns, order⟩ :=
      planRootField_restrictedBy planned root noFilter (filterOf_tests plain .locate value)
        fun d => by
          obtain ⟨needle, d', -, compiled⟩ := gives_compile_locate found bound searchable accepted d
          exact ⟨_, d', compiled⟩
    obtain ⟨select', gs', p'⟩ := planOf_of_build built planned' root
    refine ⟨plan', planned', fun w text row hasText inserted => ?_,
      fun tables rootRows limit table => ⟨p.run_unrestricted noFilter table limit, ?_,
        p.answersFor_ne_nil tables⟩⟩
    · rw [p'.holds_tests filter' found bound searchable.supports rfl rfl accepted]
      exact (place w text row hasText inserted).isTrue_iff
    · -- The test joins nothing, so a row that is kept is answered as it was before.
      have table' : Keyed.find? tables plan'.query.table = some rootRows := by
        rw [p'.table, ← p.table]
        exact table
      have run := p'.run_rootOnly (rootOnly_of_leaf filter') table' limit
      have answers : tables.answersFor plan'.query = tables.answersFor plan.query := by
        funext row
        simp only [Tables.answersFor]
        rw [joins, columns, order]
      rwa [answers, order] at run

end Planning

/-! ### Searching the small library -/

namespace Sample

theorem attributes_alone : books.Alone attributes := by
  refine EntityType.alone_of_forall fun g hg same => ?_
  simp only [books, List.mem_cons, List.not_mem_nil, or_false] at hg
  rcases hg with rfl | rfl | rfl | rfl
  · exact absurd same (by decide)
  · exact absurd same (by decide)
  · rfl
  · exact absurd same (by decide)

/-- What became of a book with a list of attributes. -/
def listed : Row := [("id", .string "1"), ("attributes", .string "[\"x\",7]")]

/-- The book was inserted with the list. -/
theorem listed_inserted :
    Tables.Inserted schema books "attributes" (.array [.string "x", .ofInt 7]) listed := by
  have inserted : Tables.empty.insertEntity schema "Book" (.object
    [("id", .string "1"), ("attributes", .array [.string "x", .ofInt 7])]) =
      .ok (Tables.empty.insertRow books.descriptor.qualifiedTable listed) := rfl
  exact .intro rfl (by decide) (List.mem_cons_of_mem _ List.mem_cons_self) inserted

/-- The field `OR` of a trial, a text. -/
def oddsRatio : SchemaField := text "OR"

/-- Trials, with a field called like a combinator. -/
def trial : EntityDescriptor :=
  ⟨"Trial", some "trials", none, "trials", some "id", [id.descriptor, oddsRatio.descriptor]⟩

/-- Trials in the schema. -/
def trials : EntityType := ⟨trial, "trials", criteriaTypeName "trials", [id, oddsRatio], id⟩

/-- The schema of trials. -/
def study : QuerySchema := ⟨"study", [trials], .empty⟩

/-- The root field of all trials. -/
def allTrials : Document.Field := .mk none "trials" [] [.mk none "select" [] [leaf "id"]]

/-- Under `OR` criteria cannot search the field of this name: the trial has the
needle in its text, and can be answered, but not sought. -/
theorem not_sought :
    QuerySchema.build "study" [trial] .empty = .ok study ∧
      trials.field? "OR" = some oddsRatio ∧
      trials.Alone oddsRatio ∧
      (∃ b, oddsRatio.binding = some b ∧ b = .plain "String" "Built-in String" .text ∧
        b.Searchable ∧ Predicate.coerce [] "OR" b (.ofValue (.string "x")) = .ok (.string "x") ∧
        b.HasText (.string "x") (some "x") ∧ Occurs (b.coercion.needle (.string "x")) "x") ∧
      Tables.Inserted study trials "OR" (.string "x") [("id", .string "1"), ("OR", .string "x")] ∧
      (∃ plan, Planning.planRootField study [] allTrials = .ok plan) ∧
      Planning.planRootField study [] (allTrials.restrictedBy (.tests "OR" .locate (.string "x"))) =
        .error (.invalidValue "LOCATE" "expected an input object") := by
  have inserted : Tables.empty.insertEntity study "Trial" (.object
    [("id", .string "1"), ("OR", .string "x")]) = .ok (Tables.empty.insertRow
      trials.descriptor.qualifiedTable [("id", .string "1"), ("OR", .string "x")]) := rfl
  refine ⟨rfl, rfl, ?_, ⟨_, rfl, rfl, .text rfl rfl, rfl, .string rfl "x", "", "", rfl⟩,
    .intro rfl (by decide) (List.mem_cons_of_mem _ List.mem_cons_self) inserted, ⟨_, rfl⟩, rfl⟩
  refine EntityType.alone_of_forall (List.forall_mem_cons.2 ⟨fun same => ?_, ?_⟩)
  · exact absurd same (by decide)
  · exact List.forall_mem_singleton.2 fun _ => rfl

end Sample

/-- In the library the number 7, given through a variable, is found in the text
of a list with it. -/
theorem run_sought_library :
    ∃ plan, Planning.planRootField Sample.schema [("v", .ofInt 7)]
        ((Sample.allBooks [Sample.leaf "id"]).restrictedBy
          (.tests "attributes" .locate (.variable "v"))) = .ok plan ∧
      plan.query.holds Sample.listed = true := by
  have found : Sample.books.field? "attributes" = some Sample.attributes := rfl
  have accepted : Predicate.coerce [("v", .ofInt 7)] "attributes"
    (.document "Attributes" "Attributes of a book") (.ofValue (.variable "v")) =
      .ok (.ofInt 7) := rfl
  have planned : Planning.planRootField Sample.schema [("v", .ofInt 7)]
    (Sample.allBooks [Sample.leaf "id"]) = .ok _ := rfl
  obtain ⟨-, restricted⟩ := Planning.run_sought Sample.schema_built found rfl
    (.document rfl rfl) Sample.attributes_alone accepted
  obtain ⟨plan, planned, holds, -⟩ := restricted (by decide) _ _ rfl rfl planned
  refine ⟨plan, planned, (holds _ _ _ (.document rfl rfl) Sample.listed_inserted).2 ?_⟩
  exact ⟨_, rfl, "[\"x\",", "]", rfl⟩

end EntityQuery
