/-
EntityQuery/Proofs/Navigation.lean

Joining and regrouping is navigating.

An entity model can be read without any joins: from a row, a scalar field is
the answer for the row's own cell, and an association leads to the rows of its
target that are linked to the row (`Navigation.answers`).  Executing a root
field does something else: it joins the tables of all associations, and puts
the objects together from the rows that come out.

The two agree (`Planning.executeRoot_eq_navigate`).  The induction is on the
selected fields, which mirror the requested ones; at an association, the
groups of the rows located at one row are located at its partners.
-/
import EntityQuery.Proofs.Groups
import EntityQuery.Proofs.Reading
import EntityQuery.Proofs.Where
import EntityQuery.Response.Execution

namespace EntityQuery

open Store Joins

/-! ### Navigation -/

/-- The column of a scalar field of an entity, and what answers its values. -/
def EntityType.scalar? (e : EntityType) (name : String) : Option (String × ScalarBinding) := do
  let field ← e.field? name
  let b ← field.binding
  return (field.descriptor.column, b)

/-- A field bound to a scalar is one, on its column. -/
theorem EntityType.scalar?_of_bound {e : EntityType} {name : String} {field : SchemaField}
    {b : ScalarBinding} (found : e.field? name = some field) (bound : field.binding = some b) :
    e.scalar? name = some (field.descriptor.column, b) := by
  simp only [EntityType.scalar?]
  rw [found]
  simp [bound]

/-- An association is no scalar field. -/
theorem EntityType.scalar?_of_association {s : QuerySchema} {e : EntityType} {name : String}
    {A : Association} (leads : s.association? e name = some A) : e.scalar? name = none := by
  obtain ⟨found, bound, -⟩ := (s.association?_eq_some).1 leads
  simp only [EntityType.scalar?]
  rw [found]
  simp [bound]

/-- The answer of an association that leads to these objects: all of them, or
the first one. -/
def Association.collected (A : Association) (objects : List Json) : Json :=
  match A.field.descriptor.kind with
  | .toMany _ _ => .array objects
  | _ => objects.head?.getD .null

namespace Navigation

variable (s : QuerySchema) (tables : Tables)

mutual

/-- The answer of a requested field of a row, which stands at a path. -/
def answer (e : EntityType) (path : List String) (row : Row) :
    Document.Field → Except DecodeError Json
  | .mk _ name _ selection =>
    match e.scalar? name, s.association? e name with
    | some (column, b), _ =>
      (b.output (cellOf (some row) column)).mapError fun fault =>
        ⟨Selection.columnName path name, fault.message⟩
    | none, some A =>
      ((A.partners tables (some row)).mapM fun partner =>
        (answers A.target (path ++ [name]) partner selection).map .object).map A.collected
    | none, none => .ok .null

/-- The answers of requested fields of a row, in order. -/
def answers (e : EntityType) (path : List String) (row : Row) :
    List Document.Field → Except DecodeError (List (String × Json))
  | [] => .ok []
  | f :: fs => do
    let value ← answer e path row f
    let others ← answers e path row fs
    return (f.responseKey, value) :: others

end

/-- The objects of rows of an entity, in order. -/
def objects (e : EntityType) (path : List String) (requested : List Document.Field)
    (rows : List Row) : Except DecodeError (List Json) :=
  rows.mapM fun row => (answers s tables e path row requested).map .object

variable {s tables}

/-- A scalar field is answered with what its cell is given out as. -/
theorem answer_scalar {e : EntityType} {path : List String} {row : Row} {label : Option String}
    {name : String} {arguments : List (String × Document.Value)}
    {selection : List Document.Field} {field : SchemaField} {b : ScalarBinding}
    (found : e.field? name = some field) (bound : field.binding = some b) :
    answer s tables e path row (.mk label name arguments selection) =
      (b.output (cellOf (some row) field.descriptor.column)).mapError fun fault =>
        ⟨Selection.columnName path name, fault.message⟩ := by
  rw [answer, EntityType.scalar?_of_bound found bound]

/-- An association is answered with the objects of the rows that it leads to.
-/
theorem answer_association {e : EntityType} {path : List String} {row : Row}
    {label : Option String} {name : String} {arguments : List (String × Document.Value)}
    {selection : List Document.Field} {A : Association}
    (leads : s.association? e name = some A) :
    answer s tables e path row (.mk label name arguments selection) =
      (objects s tables A.target (path ++ [name]) selection (A.partners tables (some row))).map
        A.collected := by
  rw [answer, EntityType.scalar?_of_association leads, leads]
  rfl

/-- Answers stand under the response keys of their fields. -/
theorem keys_answers {e : EntityType} {path : List String} {row : Row}
    {fs : List Document.Field} {pairs : List (String × Json)}
    (h : answers s tables e path row fs = .ok pairs) :
    Keyed.keys pairs = fs.map (·.responseKey) := by
  induction fs generalizing pairs with
  | nil =>
    cases h
    rfl
  | cons f fs ih =>
    rw [answers] at h
    obtain ⟨value, -, h⟩ := Outcome.bind_eq_ok.1 h
    obtain ⟨others, rest, h⟩ := Outcome.bind_eq_ok.1 h
    cases h
    exact congrArg (f.responseKey :: ·) (ih rest)

/-- An object whose members have different names is filed as it is. -/
theorem map_object_ofPairs {e : EntityType} {path : List String} {row : Row}
    {fs : List Document.Field} (distinct : (fs.map (·.responseKey)).Nodup) :
    (answers s tables e path row fs).map (fun pairs => Json.object (Keyed.ofPairs pairs)) =
      (answers s tables e path row fs).map .object := by
  cases outcome : answers s tables e path row fs with
  | error fault => rfl
  | ok pairs =>
    rw [← keys_answers outcome] at distinct
    show Except.ok (Json.object (Keyed.ofPairs pairs)) = .ok (.object pairs)
    rw [Keyed.ofPairs_eq_self distinct]

theorem collected_eq (A : Association) (objects : List Json) :
    A.collected objects =
      Reshape.associated (Selection.cardinality A.field.descriptor) objects := by
  simp only [Association.collected, Selection.cardinality]
  cases A.field.descriptor.kind with
  | toMany target mappedBy => rfl
  | toOne target joinColumn => cases objects <;> rfl
  | scalar valueClass => cases objects <;> rfl

/-! ### Objects of groups -/

variable {root : EntityType} {joins : Joins} {columns : List Column} {rows : List Row}

/-- The objects of rows that fall into groups for these rows of an entity. -/
theorem objects_eq {flat : List Row} {entity tableAlias column : String} {p path : List String}
    {gs : List SelectedField} {e : EntityType} {fs : List Document.Field} {found : List Row}
    {group : Row → List Row} (distinct : (fs.map (·.responseKey)).Nodup)
    (groups : Reshape.groups column flat = found.map group)
    (members : ∀ row ∈ found, Reshape.members (group row) gs = answers s tables e path row fs) :
    Reshape.objects flat (.mk entity p tableAlias column gs) =
      objects s tables e path fs found := by
  simp only [objects]
  rw [Reshape.objects, groups, Outcome.mapM_map, Outcome.mapM_congr members]
  -- Objects are filed by name, which changes nothing if the names differ.
  have all : ∀ row ∈ found, (answers s tables e path row fs).map .object =
      (answers s tables e path row fs).map fun pairs => Json.object (Keyed.ofPairs pairs) :=
    fun row _ => (map_object_ofPairs distinct).symm
  rw [Outcome.mapM_congr all, ← Outcome.map_mapM]
  cases found.mapM fun row => answers s tables e path row fs <;> rfl

/-- The answer of a column from the rows that are located at a row is that of
the row's own cell. -/
theorem scalarAnswer_eq (planned : Planned s root joins) (distinct : (columns.map (·.name)).Nodup)
    {path : List String} {row : Row} {part : Choice → Bool}
    (located : Tables.Located tables joins rows path row part) {a column name : String}
    (joined : joins.aliasOf? path = some a) (asked : ⟨.column a column, name⟩ ∈ columns)
    (b : ScalarBinding) :
    Reshape.scalarAnswer name b
        ((tables.parted joins rows part).map (Tables.resultOf columns)) =
      (b.output (cellOf (some row) column)).mapError fun fault => ⟨name, fault.message⟩ := by
  obtain ⟨binding, hb, inPart⟩ := located.nonempty
  cases parts : tables.parted joins rows part with
  | nil =>
    have member : binding ∈ tables.parted joins rows part := List.mem_filter.2 ⟨hb, inPart⟩
    rw [parts] at member
    exact absurd member List.not_mem_nil
  | cons first others =>
    -- The first row speaks for all: the choice at the path is the same in each.
    have head : first ∈ tables.parted joins rows part := by
      rw [parts]
      exact List.mem_cons_self
    obtain ⟨among, inPart⟩ := List.mem_filter.1 head
    have covers := (Tables.spans_of_mem_bindings planned among).covers
    have cell := Tables.cell_resultOf distinct covers asked joined
    rw [located.here first among inPart] at cell
    show (b.output (Reshape.cell (Tables.resultOf columns first) name)).mapError _ = _
    rw [cell]

/-- The members made of the rows that are located at a row are its answers. -/
theorem members_eq (planned : Planned s root joins) (distinct : (columns.map (·.name)).Nodup)
    (hr : root ∈ s.entities) (identifies : ∀ e ∈ s.entities, tables.Identifies e)
    {e : EntityType} {path : List String} {fs : List Document.Field} {gs : List SelectedField}
    (mirrors : Selection.Mirrors s joins columns e path fs gs)
    (entity : s.entityAt root path = some e)
    (keys : Document.Field.AllThroughout (·.KeysDistinct) fs) {row : Row} {part : Choice → Bool}
    (located : Tables.Located tables joins rows path row part) :
    Reshape.members ((tables.parted joins rows part).map (Tables.resultOf columns)) gs =
      answers s tables e path row fs := by
  induction mirrors generalizing row part with
  | nil => rfl
  | @scalar e path label name a arguments field b fs gs found bound joined asked rest ih =>
    rw [Reshape.members, Reshape.member, answers, answer_scalar found bound,
      ih entity keys.2 located, scalarAnswer_eq planned distinct located joined asked b]
    cases b.output (cellOf (some row) field.descriptor.column) <;> rfl
  | @association e path label name a A selection fs fields gs leads joined asked below rest
      ihBelow ihRest =>
    have association : s.associationAt root (path ++ [name]) = some A := by
      rw [s.associationAt_concat, entity, Option.bind_some, leads]
    have target : s.entityAt root (path ++ [name]) = some A.target := by
      rw [s.entityAt_concat, association]
      rfl
    have identified := identifies A.target (QuerySchema.mem_of_entityAt hr target)
    -- The groups below are those of the partners, each located at its partner.
    have shown : ((tables.parted joins rows part).filterMap fun binding =>
          A.target.idText? (choiceOf joins binding (path ++ [name]))).eraseDups =
        (A.partners tables (some row)).map fun row =>
          (cellOf (some row) A.target.idColumn).text :=
      (located.identifiers planned joined association).trans (identified.eraseDups _)
    have made : Reshape.objects ((tables.parted joins rows part).map (Tables.resultOf columns))
          (.mk A.target.name (path ++ [name]) a _ fields) =
        objects s tables A.target (path ++ [name]) selection (A.partners tables (some row)) :=
      objects_eq keys.1.1 (Tables.groups_parted planned distinct joined asked shown)
        fun partner hp => ihBelow target keys.1.2
          (located.partner planned joined association identified hp)
    rw [Reshape.members, Reshape.member, made, answers, answer_association leads,
      ihRest entity keys.2 located, funext (collected_eq A)]
    cases objects s tables A.target (path ++ [name]) selection _ <;> rfl

end Navigation

/-! ### Executing a root field -/

/-- Whether the condition of a query, if it has one, is true of a row of the
root. -/
def Query.holds (q : Query) (row : Row) : Bool :=
  q.filter.all fun condition =>
    (eval q.parameters [(q.tableAlias, some row)] condition).toOption.any isTrue

/-- The leaves of the filter are fields of the root. -/
def Filter.RootOnly (f : Filter) : Prop := ∀ leaf ∈ f.leaves, leaf.path.length = 1

namespace Executor

/-- Without a cap, the query is asked as it was planned. -/
theorem executeRoot_uncapped [Disorder] {s : QuerySchema} {vars : Variables}
    {field : Document.Field} {plan : RootPlan} (planned : Planning.planRootField s vars field = .ok plan)
    (unlimited : plan.query.limit = none) (tables : Tables) :
    (executeRoot ⟨s, none⟩ (fun q => (pure (tables.run q) : Id _)) vars field).run =
      answer ⟨s, none⟩ plan (tables.run plan.query) := by
  have same : query ⟨s, none⟩ plan = plan.query := by
    simp only [query, limit]
    rw [Option.map_none, ← unlimited]
  simp only [executeRoot]
  rw [planned]
  dsimp only
  rw [same]
  rfl

/-- Without a cap, all rows are regrouped. -/
theorem answer_uncapped (s : QuerySchema) (plan : RootPlan) (rows : List Row) :
    answer ⟨s, none⟩ plan (.ok rows) =
      ((Reshape.objects rows plan.selection.node).mapError .decode).map fun objects =>
        .object [(plan.selection.selectKey, .array objects)] := by
  have checked : checkRows ⟨s, none⟩ rows = .ok () := rfl
  simp only [answer]
  simp only [Except.mapError, Outcome.ok_bind, checked]
  cases Reshape.objects rows plan.selection.node <;> rfl

end Executor

namespace Planning

variable {s : QuerySchema} {named : String → Prop} {vars : Variables} {field : Document.Field}
variable {plan : RootPlan} {entity : EntityType} {select : Document.Field}
variable {gs : List SelectedField} {tables : Tables}

/-- A filter on fields of the root keeps a choice of rows if its condition is
true of the root row alone. -/
theorem PlanOf.keeps_eq_holds (p : PlanOf s named vars field plan entity select gs)
    (rootOnly : ∀ f, plan.filter = some f → f.RootOnly) {choice : Choice} {row : Row}
    (first : choice [] = some row) :
    keeps s entity vars plan.filter choice = plan.query.holds row := by
  have condition := p.condition
  simp only [Expresses] at condition
  simp only [Query.holds]
  split at condition
  · next noFilter noCondition =>
    rw [noFilter, noCondition]
    rfl
  · next f e someFilter someCondition =>
    -- A binding of the root alone has all rows that the leaves look at.
    have value := condition.2 [(rootAlias, some row)] choice fun leaf hl => by
      have short := rootOnly f someFilter leaf hl
      have root : leaf.path.dropLast = [] := by
        rw [List.eq_nil_iff_length_eq_zero, List.length_dropLast, short]
      rw [root]
      intro a joined
      cases joined
      rw [first]
      rfl
    rw [someFilter, someCondition, p.tableAlias]
    show decide _ = (Except.toOption _).any isTrue
    rw [value]
    show decide _ = Store.isTrue _
    rw [Bool.eq_iff_iff, Truth.isTrue_toJson, decide_eq_true_eq]
  · exact condition.elim

/-- The bindings of a planned query whose filter is on fields of the root. -/
theorem PlanOf.flatMap_kept (p : PlanOf s named vars field plan entity select gs)
    (rootOnly : ∀ f, plan.filter = some f → f.RootOnly) (rows : List Row) :
    rows.flatMap (kept s entity vars tables plan) =
      tables.bindings plan.query.joins (rows.filter plan.query.holds) := by
  unfold kept Tables.bindings
  rw [← List.filter_flatMap]
  refine filter_flatMap_eq fun row _ binding hb => ?_
  exact p.keeps_eq_holds rootOnly (p.spans hb).2

/-- The objects made of the rows of a planned query are those that are found
by navigation. -/
theorem PlanOf.objects_eq (p : PlanOf s Dotless vars field plan entity select gs)
    (dotless : Dotless entity.idField.name)
    (identifies : ∀ e ∈ s.entities, tables.Identifies e)
    (keys : field.Throughout (·.KeysDistinct)) (chosen : Row → Bool) :
    Reshape.objects ((tables.bindings plan.query.joins
        ((tables.rowsOf entity.descriptor.qualifiedTable).filter chosen)).map
          (Tables.resultOf plan.query.columns)) plan.selection.node =
      Navigation.objects s tables entity [] select.selection
        ((tables.rowsOf entity.descriptor.qualifiedTable).filter chosen) := by
  have hr := QuerySchema.mem_of_root? p.root
  have identified := identifies entity hr
  have below := keys.below
  rw [p.selects] at below
  obtain ⟨distinct, keys⟩ : (select.selection.map (·.responseKey)).Nodup ∧
      Document.Field.AllThroughout (·.KeysDistinct) select.selection := by
    cases select
    exact below.1
  -- The root is a part without restrictions.
  have whole : ∀ rows, tables.bindings plan.query.joins rows =
      tables.parted plan.query.joins rows fun _ => true := fun rows =>
    (List.filter_eq_self.2 fun _ _ => rfl).symm
  have shown := Tables.identifiers_root (p := chosen) p.joins identified
  rw [whole] at shown ⊢
  rw [p.selection]
  have groups := Tables.groups_parted p.joins p.distinct (aliasOf?_nil _) (p.id dotless) shown
  refine Navigation.objects_eq distinct groups fun row hrow => ?_
  exact Navigation.members_eq p.joins p.distinct hr identifies (p.mirrors fun _ dotless => dotless)
    (s.entityAt_nil entity) keys (Tables.located_root p.joins identified hrow)

/-- **Joining and regrouping is navigating.**  Where identifiers tell the rows
of every entity apart, a root field that asks for no order, answers different
fields under different names, and restricts fields of the root only, is
answered with the root rows on which its condition is true, each as what
navigation from the row finds; a stored value that cannot be answered fails
both in the same way. -/
theorem executeRoot_eq_navigate [Disorder] {name : String} {descriptors : List EntityDescriptor}
    {registry : ScalarRegistry} (built : QuerySchema.build name descriptors registry = .ok s)
    (dotless : ∀ e ∈ s.entities, Dotless e.idField.name)
    (identifies : ∀ e ∈ s.entities, tables.Identifies e)
    {text : String} {op : Document.Operation} (parsed : Document.parse text = .ok op)
    (requested : field ∈ op.selection) (planned : planRootField s vars field = .ok plan)
    (unordered : field.Throughout (·.Unordered)) (keys : field.Throughout (·.KeysDistinct))
    (rootOnly : ∀ f, plan.filter = some f → f.RootOnly) :
    ∃ entity select, s.root? field.name = some entity ∧ field.selection = [select] ∧
      (Executor.executeRoot ⟨s, none⟩ (fun q => (pure (tables.run q) : Id _)) vars field).run =
        ((Navigation.objects s tables entity [] select.selection
          ((tables.rowsOf entity.descriptor.qualifiedTable).filter plan.query.holds)).mapError
            .decode).map fun objects => .object [(select.responseKey, .array objects)] := by
  have named := Document.Field.allThroughout_iff.1 (Document.named_parse parsed) field requested
  obtain ⟨entity, select, gs, p⟩ :=
    planOf planned ⟨QuerySchema.identified_of_build built, dotless⟩ named.below
  have hr := QuerySchema.mem_of_root? p.root
  obtain ⟨rootRows, table⟩ := Option.isSome_iff_exists.1 (identifies entity hr).table
  have rows : tables.rowsOf entity.descriptor.qualifiedTable = rootRows := by
    simp only [Tables.rowsOf]
    rw [table]
    rfl
  rw [← p.table] at table
  have run := p.run unordered table
  -- A filter on the root alone is decided before anything is joined.
  rw [p.flatMap_kept rootOnly, ← rows] at run
  refine ⟨entity, select, p.root, p.selects, ?_⟩
  rw [Executor.executeRoot_uncapped planned p.limit, run, Executor.answer_uncapped,
    p.objects_eq (dotless entity hr) identifies keys, p.selection]

end Planning

/-! ### The small library -/

namespace Sample

/-- A document that asks for the books called `x`, and what their authors
wrote. -/
def document : String :=
  "\x7bbooks(where: \x7btitle: \x7bEQ: \"x\"\x7d\x7d) " ++
    "\x7bselect \x7btitle author \x7bname books \x7bid\x7d\x7d\x7d\x7d\x7d"

/-- Its answer: one of the two books has no author. -/
def answer : String :=
  "\x7b\"select\":[" ++
    "\x7b\"title\":\"x\",\"author\":\x7b\"name\":\"yvonne\"," ++
      "\"books\":[\x7b\"id\":\"1\"\x7d,\x7b\"id\":\"3\"\x7d]\x7d\x7d," ++
    "\x7b\"title\":\"x\",\"author\":null\x7d]\x7d"

/-- The tables of the library, as a store. -/
def source : RowSource Id := fun q => pure (tables.run q)

theorem identifies : ∀ e ∈ schema.entities, tables.Identifies e := by
  refine List.forall_mem_cons.2 ⟨?_, List.forall_mem_singleton.2 ?_⟩
  · exact ⟨by decide, by decide, by decide⟩
  · exact ⟨by decide, by decide, by decide⟩

/-- Everything that is assumed of a root field, and what it is answered
with. -/
def check (field : Document.Field) (plan : RootPlan) : Bool :=
  field.Throughout (·.Unordered) && field.Throughout (·.KeysDistinct) &&
    (plan.filter.all fun f => f.leaves.all fun leaf => leaf.path.length == 1) &&
    (Executor.executeRoot ⟨schema, none⟩ source [] field).run.toOption.map Json.text == some answer

end Sample

open Planning in
/-- In the library, navigation finds the answer of the document. -/
theorem executeRoot_eq_navigate_library :
    ∃ op field plan, Document.parse Sample.document = .ok op ∧ field ∈ op.selection ∧
      planRootField Sample.schema [] field = .ok plan ∧
      ∃ entity select objects, field.selection = [select] ∧
        Navigation.objects Sample.schema Sample.tables entity [] select.selection
          ((Sample.tables.rowsOf entity.descriptor.qualifiedTable).filter plan.query.holds) =
            .ok objects ∧
        (Json.object [(select.responseKey, .array objects)]).text = Sample.answer := by
  have ran : ((Document.parse Sample.document).toOption.bind fun op =>
      op.selection.head?.bind fun field =>
        (planRootField Sample.schema [] field).toOption.map (Sample.check field)) =
      some true := by decide +kernel
  obtain ⟨op, parsed, ran⟩ := Option.bind_eq_some_iff.1 ran
  obtain ⟨field, first, ran⟩ := Option.bind_eq_some_iff.1 ran
  obtain ⟨plan, planned, ran⟩ := Option.map_eq_some_iff.1 ran
  have parsed := Outcome.toOption_eq_some.1 parsed
  have planned := Outcome.toOption_eq_some.1 planned
  have requested := List.mem_of_head? first
  simp only [Sample.check, Bool.and_eq_true, decide_eq_true_eq, beq_iff_eq] at ran
  obtain ⟨⟨⟨unordered, keys⟩, rootOnly⟩, answered⟩ := ran
  have rootOnly : ∀ f, plan.filter = some f → f.RootOnly := by
    intro f some leaf hl
    rw [some] at rootOnly
    simpa using List.all_eq_true.1 rootOnly leaf hl
  obtain ⟨entity, select, -, selects, navigated⟩ := executeRoot_eq_navigate
    Sample.schema_built (by decide) Sample.identifies parsed requested planned unordered keys
    rootOnly
  unfold Sample.source at answered
  rw [navigated] at answered
  obtain ⟨value, ok, text⟩ := Option.map_eq_some_iff.1 answered
  obtain ⟨objects, found, rfl⟩ := Outcome.map_eq_ok.1 (Outcome.toOption_eq_some.1 ok)
  exact ⟨op, field, plan, parsed, requested, planned, entity, select, objects, selects,
    Outcome.mapError_eq_ok.1 found, text⟩

end EntityQuery
