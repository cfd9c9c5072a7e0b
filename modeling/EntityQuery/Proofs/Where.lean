/-
EntityQuery/Proofs/Where.lean

A filter means the same whatever is selected beside it.

The joins of a query serve the selection and the filter together, so the rows
of a query depend on both.  Which rows of the root they stem from does not:
a root row has a result row exactly if some consistent choice of rows along
the associations of the filter makes the filter true.  A join for the
selection neither loses such a choice, since a left join always goes on, nor
adds one, since what it chooses the filter does not look at.

Rows that stem from one root row all carry its identifier, and rows of an
earlier root row come first.  So the identifiers of the result are those of
the selected root rows, in the order of the table (`PlanOf.identifiers_run`),
and two selections with one filter have the same (`where_independent`).
-/
import EntityQuery.Proofs.Distinct
import EntityQuery.Proofs.Plan

namespace EntityQuery

open Store Joins

/-! ### The rows of a planned query -/

/-- The bindings on which the condition of a query is true, if it has one. -/
def Query.keep (q : Query) (bindings : List Binding) : Except StoreError (List Binding) :=
  match q.filter with
  | some condition => Tables.keep q.parameters condition bindings
  | none => .ok bindings

/-- The bindings of a query, part by part. -/
theorem Tables.bindingsOf_eq {tables : Tables} {q : Query} {rows : List Row}
    {joined kept : List Binding} (table : Keyed.find? tables q.table = some rows)
    (join : tables.joinAll q.parameters (rows.map fun row => [(q.tableAlias, some row)]) q.joins =
      .ok joined)
    (filter : q.keep joined = .ok kept) : tables.bindingsOf q = .ok kept := by
  simp only [Tables.bindingsOf]
  rw [table]
  simp only [join, Outcome.ok_bind]
  simp only [Query.keep] at filter
  cases condition : q.filter <;> rw [condition] at filter <;> exact filter

/-- A query without an order and a limit, part by part. -/
theorem Tables.run_of_parts [Disorder] {tables : Tables} {q : Query} {rows : List Row}
    {joined kept : List Binding} (unordered : q.order = []) (unlimited : q.limit = none)
    (table : Keyed.find? tables q.table = some rows)
    (join : tables.joinAll q.parameters (rows.map fun row => [(q.tableAlias, some row)]) q.joins =
      .ok joined)
    (filter : q.keep joined = .ok kept) :
    tables.run q = kept.mapM (Tables.resultRow q.parameters q.columns) := by
  have bindings := Tables.bindingsOf_eq table join filter
  simp only [Tables.run, bindings, Outcome.ok_bind, unlimited, Tables.sorted, unordered,
    List.isEmpty_nil, if_true]
  rfl

namespace Planning

/-- Whether a filter, if there is one, is true of a choice of rows. -/
def keeps (s : QuerySchema) (root : EntityType) (vars : Variables) (filter : Option Filter)
    (choice : Choice) : Bool :=
  match filter with
  | none => true
  | some f => decide (Predicate.meaning s root vars choice f = .yes)

/-- The bindings of a planned query: every row of the root spread over the
joins, as far as the filter keeps it. -/
def kept (s : QuerySchema) (root : EntityType) (vars : Variables) (tables : Tables)
    (plan : RootPlan) (row : Row) : List Binding :=
  (tables.spread plan.query.joins [(rootAlias, some row)]).filter fun binding =>
    keeps s root vars plan.filter (choiceOf plan.query.joins binding)

variable {s : QuerySchema} {named : String → Prop} {vars : Variables} {field : Document.Field}
variable {plan : RootPlan} {entity : EntityType} {select : Document.Field}
variable {gs : List SelectedField} {tables : Tables} {rootRows : List Row}

theorem PlanOf.spans (p : PlanOf s named vars field plan entity select gs) {row : Row}
    {binding : Binding} (h : binding ∈ tables.spread plan.query.joins [(rootAlias, some row)]) :
    Spans plan.query.joins binding ∧ choiceOf plan.query.joins binding [] = some row := by
  exact ⟨(tables.spans_of_mem_spread p.joins (spans_root (some row)) h).1,
    Tables.choiceOf_root_of_mem_spread p.joins h⟩

/-- The condition of a planned query keeps what the filter keeps. -/
theorem PlanOf.keep_eq (p : PlanOf s named vars field plan entity select gs)
    {bindings : List Binding} (covers : ∀ binding ∈ bindings, Covers plan.query.joins binding) :
    plan.query.keep bindings = .ok (bindings.filter fun binding =>
      keeps s entity vars plan.filter (choiceOf plan.query.joins binding)) := by
  have condition := p.condition
  simp only [Expresses] at condition
  simp only [Query.keep]
  split at condition
  · next noFilter noCondition =>
    rw [noCondition, noFilter]
    exact congrArg Except.ok (List.filter_eq_self.2 fun _ _ => rfl).symm
  · next f e someFilter someCondition =>
    rw [someCondition, someFilter]
    have value := fun binding hb =>
      condition.2 binding _ fun leaf _ => (covers binding hb).agrees _
    dsimp only
    rw [Predicate.keep_of_truth _ value]
    refine congrArg Except.ok (List.filter_congr fun binding _ => ?_)
    rw [Bool.eq_iff_iff, Truth.isTrue_toJson]
    simp [keeps]
  · -- A plan has a condition if and only if it has a filter.
    exact condition.elim

/-- Running the joins of a planned query on root rows and then its condition
gives the bindings that its filter keeps. -/
theorem PlanOf.kept_eq (p : PlanOf s named vars field plan entity select gs)
    (rootRows : List Row) :
    ∃ joined, tables.joinAll plan.query.parameters
        (rootRows.map fun row => [(plan.query.tableAlias, some row)]) plan.query.joins =
          .ok joined ∧
      plan.query.keep joined = .ok (rootRows.flatMap (kept s entity vars tables plan)) ∧
      ∀ binding ∈ rootRows.flatMap (kept s entity vars tables plan),
        Covers plan.query.joins binding := by
  have roots : ∀ binding ∈ rootRows.map fun row => [(plan.query.tableAlias, some row)],
      Spans [] binding := by
    intro binding hb
    obtain ⟨row, -, rfl⟩ := List.mem_map.1 hb
    rw [p.tableAlias]
    exact spans_root (some row)
  have planned : Planned s entity ([] ++ plan.query.joins) := p.joins
  have joined := tables.joinAll_eq plan.query.parameters planned roots
  have covers : ∀ binding ∈ (rootRows.map fun row => [(plan.query.tableAlias, some row)]).flatMap
      (tables.spread plan.query.joins), Covers plan.query.joins binding := by
    intro binding hb
    obtain ⟨start, hs, hb⟩ := List.mem_flatMap.1 hb
    exact (tables.spans_of_mem_spread p.joins (roots start hs) hb).1.covers
  -- Filtering all bindings is filtering those of each root row.
  have all : (rootRows.flatMap (kept s entity vars tables plan)) =
      ((rootRows.map fun row => [(plan.query.tableAlias, some row)]).flatMap
        (tables.spread plan.query.joins)).filter fun binding =>
          keeps s entity vars plan.filter (choiceOf plan.query.joins binding) := by
    rw [List.flatMap_map, List.filter_flatMap, p.tableAlias]
    rfl
  refine ⟨_, joined, ?_, fun binding hb => ?_⟩
  · rw [p.keep_eq covers, all]
  · rw [all] at hb
    exact covers binding (List.mem_filter.1 hb).1

/-- The rows that a planned query without an order asks for. -/
theorem PlanOf.run [Disorder] (p : PlanOf s named vars field plan entity select gs)
    (unordered : field.Throughout (·.Unordered))
    (table : Keyed.find? tables plan.query.table = some rootRows) :
    tables.run plan.query = .ok ((rootRows.flatMap (kept s entity vars tables plan)).map
      (Tables.resultOf plan.query.columns)) := by
  obtain ⟨joined, join, filter, covers⟩ := p.kept_eq rootRows
  rw [Tables.run_of_parts (p.unordered unordered) p.limit table join filter]
  exact Outcome.mapM_ok fun binding hb =>
    Tables.resultRow_eq p.columns p.distinct (covers binding hb) _

/-! ### Root rows that a filter selects -/

/-- The path is one of the associations that a leaf of the filter leads
over. -/
def Along (filter : Option Filter) (path : List String) : Prop :=
  ∃ f, filter = some f ∧ ∃ leaf ∈ f.leaves, path <+: leaf.path.dropLast

/-- Some choice of rows that starts from the row, and is consistent along the
paths of the filter, makes the filter true. -/
def Selects (s : QuerySchema) (root : EntityType) (vars : Variables) (tables : Tables)
    (filter : Option Filter) (row : Row) : Prop :=
  ∃ choice : Choice, choice [] = some row ∧
    (∀ path, Along filter path → path ≠ [] → choice.Consistent s root tables path) ∧
    keeps s root vars filter choice = true

theorem keeps_congr {filter : Option Filter} {choice choice' : Choice}
    (h : ∀ path, Along filter path → choice path = choice' path) :
    keeps s entity vars filter choice = keeps s entity vars filter choice' := by
  cases filter with
  | none => rfl
  | some f =>
    have same : Predicate.meaning s entity vars choice f =
        Predicate.meaning s entity vars choice' f :=
      Predicate.meaning_congr fun leaf hl => h _ ⟨f, rfl, leaf, hl, List.prefix_rfl⟩
    show decide (_ = Truth.yes) = decide (_ = Truth.yes)
    rw [same]

theorem PlanOf.joined (p : PlanOf s named vars field plan entity select gs) {path : List String}
    (along : Along plan.filter path) : ∃ a, aliasOf? plan.query.joins path = some a := by
  obtain ⟨f, someFilter, leaf, hl, hp⟩ := along
  have condition := p.condition
  rw [someFilter] at condition
  cases someCondition : plan.query.filter with
  | none =>
    rw [someCondition] at condition
    exact condition.elim
  | some e =>
    rw [someCondition] at condition
    exact p.joins.closed (condition.1 leaf hl) hp

/-- A root row has a result row exactly if the filter selects it. -/
theorem PlanOf.kept_ne_nil (p : PlanOf s named vars field plan entity select gs) (row : Row) :
    kept s entity vars tables plan row ≠ [] ↔ Selects s entity vars tables plan.filter row := by
  constructor
  · -- The choice that a binding makes is consistent at all joins.
    intro some
    obtain ⟨binding, hb⟩ := List.exists_mem_of_ne_nil _ some
    obtain ⟨spread, keep⟩ := List.mem_filter.1 hb
    refine ⟨choiceOf plan.query.joins binding, (p.spans spread).2, fun path along below => ?_, keep⟩
    obtain ⟨a, joined⟩ := p.joined along
    obtain ⟨j, hj, rfl⟩ := exists_join_of_aliasOf? joined below
    exact Tables.consistent_of_mem_spread p.joins (spans_root _) spread j hj
  · -- Some binding makes the choice, along the filter's own paths.
    rintro ⟨choice, first, consistent, keep⟩
    have closed : ∀ path, Along plan.filter path → path ≠ [] →
        choice.Consistent s entity tables path ∧ Along plan.filter path.dropLast := by
      intro path along below
      have shorter := List.dropLast_prefix path
      obtain ⟨f, someFilter, leaf, hl, hp⟩ := along
      exact ⟨consistent path ⟨f, someFilter, leaf, hl, hp⟩ below,
        f, someFilter, leaf, hl, shorter.trans hp⟩
    obtain ⟨binding, hb, agrees⟩ := Tables.exists_mem_spread p.joins closed
    rw [first] at hb
    refine List.ne_nil_of_mem (List.mem_filter.2 ⟨hb, ?_⟩)
    rw [← keep]
    refine keeps_congr fun path along => ?_
    obtain ⟨a, joined⟩ := p.joined along
    exact agrees path a along joined

/-! ### Identifiers of the result -/

/-- The identifier of a row, as far as `key` tells identifiers apart; a row
without one has none. -/
def identifier {κ : Type} (key : Json → κ) (column : String) (row : Row) : Option κ :=
  if (Reshape.cell row column).isNull then none else some (key (Reshape.cell row column))

/-- The different identifiers of rows, in the order of first appearance. -/
def identifiers {κ : Type} [DecidableEq κ] (key : Json → κ) (column : String) (rows : List Row) :
    List κ :=
  (rows.filterMap (identifier key column)).eraseDups

/-- The rows that stem from one root row carry its identifier. -/
theorem PlanOf.identifier_resultOf (p : PlanOf s named vars field plan entity select gs)
    (dotless : Dotless entity.idField.name) {κ : Type} (key : Json → κ) {row : Row}
    {binding : Binding} (h : binding ∈ kept s entity vars tables plan row) :
    identifier key entity.idField.name (Tables.resultOf plan.query.columns binding) =
      identifier key entity.idColumn row := by
  obtain ⟨spans, first⟩ := p.spans (List.mem_filter.1 h).1
  have cell := Tables.cell_resultOf p.distinct spans.covers (p.id dotless) (aliasOf?_nil _)
  simp only [identifier]
  rw [cell, first]
  rfl

open Classical in
/-- The identifiers of the result are those of the selected root rows, in the
order of the table. -/
theorem PlanOf.identifiers_run (p : PlanOf s named vars field plan entity select gs)
    (dotless : Dotless entity.idField.name) {κ : Type} [DecidableEq κ] (key : Json → κ)
    (rootRows : List Row) :
    identifiers key entity.idField.name
        ((rootRows.flatMap (kept s entity vars tables plan)).map
          (Tables.resultOf plan.query.columns)) =
      identifiers key entity.idColumn
        (rootRows.filter fun row => Selects s entity vars tables plan.filter row) := by
  -- A row that is not selected has no result rows, so it may as well be left out first.
  have selected : rootRows.flatMap (kept s entity vars tables plan) =
      (rootRows.filter fun row => Selects s entity vars tables plan.filter row).flatMap
        (kept s entity vars tables plan) := by
    induction rootRows with
    | nil => rfl
    | cons row rows ih =>
      rw [List.flatMap_cons, ih, List.filter_cons]
      by_cases selects : Selects s entity vars tables plan.filter row
      · simp only [selects, decide_true, if_true, List.flatMap_cons]
      · have none : kept s entity vars tables plan row = [] := by
          by_contra some
          exact selects ((p.kept_ne_nil row).1 some)
        simp only [selects, decide_false, none, List.nil_append, Bool.false_eq_true, if_false]
  simp only [identifiers]
  rw [selected, List.filterMap_map]
  refine eraseDups_filterMap_flatMap (fun row hr => ?_) fun row _ binding hb => ?_
  · rw [p.kept_ne_nil]
    simpa using (List.mem_filter.1 hr).2
  · exact p.identifier_resultOf dotless key hb

open Classical in
/-- **The meaning of a filter does not depend on the selection.**  The
different identifiers of the result, in the order of first appearance, are
those of the root rows for which some consistent choice of rows along the
filter's own associations makes the filter true, in the order of the table;
any other selection with the same filter has the same. -/
theorem where_independent [Disorder] {name : String} {descriptors : List EntityDescriptor}
    {registry : ScalarRegistry} (built : QuerySchema.build name descriptors registry = .ok s)
    (dotless : ∀ e ∈ s.entities, Dotless e.idField.name)
    (planned : planRootField s vars field = .ok plan)
    (unordered : field.Throughout (·.Unordered))
    (table : Keyed.find? tables plan.query.table = some rootRows) :
    ∃ entity rows, s.root? field.name = some entity ∧
      filterOf vars field = .ok plan.filter ∧ tables.run plan.query = .ok rows ∧
      (∀ {κ : Type} [DecidableEq κ] (key : Json → κ),
        identifiers key entity.idField.name rows = identifiers key entity.idColumn
          (rootRows.filter fun row => Selects s entity vars tables plan.filter row)) ∧
      ∀ other plan', other.name = field.name →
        other.argument? whereArgument = field.argument? whereArgument →
        other.Throughout (·.Unordered) → planRootField s vars other = .ok plan' →
        ∃ rows', tables.run plan'.query = .ok rows' ∧
          ∀ {κ : Type} [DecidableEq κ] (key : Json → κ),
            identifiers key entity.idField.name rows' =
              identifiers key entity.idField.name rows := by
  have identified : s.Identified fun _ => True :=
    ⟨QuerySchema.identified_of_build built, fun _ _ => trivial⟩
  have planOf := fun {f : Document.Field} {pl : RootPlan}
      (h : planRootField s vars f = .ok pl) =>
    planOf h identified (Document.Field.allThroughout_of_forall (fun _ => trivial) _)
  obtain ⟨entity, select, gs, p⟩ := planOf planned
  have dotless := dotless entity (QuerySchema.mem_of_root? p.root)
  refine ⟨entity, _, p.root, p.filter, p.run unordered table,
    fun key => p.identifiers_run dotless key rootRows, ?_⟩
  -- The other plan has the root and the filter in common with this one.
  intro other plan' sameRoot sameWhere unordered' planned'
  obtain ⟨entity', select', gs', p'⟩ := planOf planned'
  have root := p'.root
  rw [sameRoot, p.root] at root
  cases root
  have filter : plan'.filter = plan.filter := by
    have filter := p'.filter
    simp only [filterOf] at filter
    rw [sameWhere] at filter
    exact Except.ok.inj (filter.symm.trans p.filter)
  have table' : Keyed.find? tables plan'.query.table = some rootRows := by
    rw [p'.table, ← p.table]
    exact table
  refine ⟨_, p'.run unordered' table', fun key => ?_⟩
  rw [p'.identifiers_run dotless key rootRows, p.identifiers_run dotless key rootRows, filter]

end Planning

/-! ### The small library -/

namespace Sample

/-- An author with two books, and a book without an author. -/
def tables : Tables :=
  [("authors", [[("id", .string "a"), ("name", .string "yvonne")]]),
   ("books", [[("id", .string "1"), ("title", .string "x"), ("author_id", .string "a")],
     [("id", .string "2"), ("title", .string "x")],
     [("id", .string "3"), ("title", .string "z"), ("author_id", .string "a")]])]

/-- The root field of books whose author has a name that begins with `y`. -/
def booksOfAuthor (selection : List Document.Field) : Document.Field :=
  .mk none "books" [("where", .object [("author", .object [("name", .object
    [("LIKE", .string "y%")])])])] [.mk none "select" [] selection]

/-- A field without a selection. -/
def leaf (name : String) : Document.Field := .mk none name [] []

/-- The titles alone. -/
def titles : Document.Field := booksOfAuthor [leaf "title"]

/-- The authors with all their books. -/
def shelves : Document.Field :=
  booksOfAuthor [.mk none "author" [] [.mk none "books" [] [leaf "title"]], leaf "title"]

end Sample

/-- In the library, asking for more makes more rows, of the same books. -/
theorem where_independent_library :
    ∃ plan rows plan' rows',
      Planning.planRootField Sample.schema [] Sample.titles = .ok plan ∧
      Sample.tables.run plan.query = .ok rows ∧ rows.length = 2 ∧
      Planning.planRootField Sample.schema [] Sample.shelves = .ok plan' ∧
      Sample.tables.run plan'.query = .ok rows' ∧ rows'.length = 4 ∧
      Planning.identifiers Json.text "id" rows' = Planning.identifiers Json.text "id" rows := by
  refine ⟨_, _, _, _, rfl, rfl, rfl, rfl, rfl, rfl, ?_⟩
  have table : Keyed.find? Sample.tables "books" = some _ := rfl
  have planned : Planning.planRootField Sample.schema [] Sample.titles = .ok _ := rfl
  obtain ⟨entity, rows, root, -, run, -, others⟩ :=
    Planning.where_independent Sample.schema_built (by decide) planned (by decide) table
  obtain ⟨rows', run', same⟩ := others Sample.shelves _ rfl rfl (by decide) rfl
  cases root
  cases run
  cases run'
  exact same Json.text

end EntityQuery
