/-
EntityQuery/Proofs/Returned.lean

Inserted objects are answered as they were given.

A root field that asks for all scalar fields of an entity, without criteria,
is answered with one object for each that was inserted, in the order of the
calls (`Planning.executeRoot_inserted`).  A field has the value that its scalar
takes the given one for; what was null or missing is answered as null.  A cap
on the rows makes no difference if it has room for them.

Three steps make the round trip.  The column of a field has the stored form of
what was given to it (`Tables.cell_rowOf`), provided that no other field has
this column.  The stored form is answered with what the value is taken for
(`ScalarBinding.output_storedForm`); a document is stored as its text, so this
one must be read back.  And since leaves of the root join nothing, each row of
the table makes one object (`Planning.executeRoot_selecting`), provided that
its identifier tells it from the others.
-/
import EntityQuery.Proofs.Capped
import EntityQuery.Proofs.Contained
import EntityQuery.Proofs.Found
import EntityQuery.Proofs.Sound
import EntityQuery.Proofs.Stored
import EntityQuery.Proofs.Substitution

namespace EntityQuery

open Store Joins

/-! ### Values -/

/-- What a literal is taken for is answered when the literal was stored.  A
document has to be read back from its text for this. -/
theorem Coercion.output_of_literal {c : Coercion} {value v : Json} (h : c.literal value = .ok v)
    (document : c = .document → value.Faithful ∧ value.depth ≤ Json.maxDepth) :
    c.output (c.stored value) = .ok v := by
  cases c with
  | document =>
    obtain ⟨faithful, deep⟩ := document rfl
    cases h
    show Except.ok ((Json.read? value.text).getD (.string value.text)) = _
    rw [Json.read?_text faithful deep]
    rfl
  | plain scalar kind =>
    -- What a strict check takes a lenient one takes; a number given out as a
    -- truth value was never taken for one.
    have lenient := check_lenient h
    cases kind
    case boolean =>
      cases value
      case number n => cases h
      all_goals exact lenient
    all_goals exact lenient

/-- The stored form of a value is answered with what the value is taken for. -/
theorem ScalarBinding.output_storedForm {g : SchemaField} {b : ScalarBinding} {value v : Json}
    (bound : g.binding = some b) (some : value.isNull = false)
    (h : b.coercion.literal value = .ok v)
    (document : b.coercion = .document → value.Faithful ∧ value.depth ≤ Json.maxDepth) :
    b.output (Tables.storedForm g value) = .ok v := by
  have stored : Tables.storedForm g value = b.coercion.stored value := by
    simp only [Tables.storedForm]
    rw [bound]
    exact if_neg (by simp [some])
  have given := Tables.isNull_storedForm (g := g) some
  rw [stored] at given ⊢
  rw [ScalarBinding.output, given, if_neg Bool.false_ne_true]
  exact Coercion.output_of_literal h document

/-- Null is stored as null, and answered as null. -/
theorem ScalarBinding.output_storedForm_null {g : SchemaField} (b : ScalarBinding)
    {value : Json} (none : value.isNull = true) :
    b.output (Tables.storedForm g value) = .ok .null := by
  obtain rfl := Json.isNull_iff.1 none
  have stored : Tables.storedForm g .null = .null := by
    simp only [Tables.storedForm]
    cases g.binding <;> rfl
  rw [stored]
  rfl

/-! ### All scalar fields of an entity -/

namespace QuerySchema

variable {s : QuerySchema} {name : String} {descriptors : List EntityDescriptor}
variable {registry : ScalarRegistry} {e : EntityType}

/-- A scalar field is found under its name, and is bound. -/
theorem scalarField_of_build (built : build name descriptors registry = .ok s)
    (he : e ∈ s.entities) {g : SchemaField} (hg : g ∈ e.scalarFields) :
    e.field? g.name = some g ∧ ∃ b, g.binding = some b := by
  obtain ⟨mem, scalar⟩ := List.mem_filter.1 hg
  obtain ⟨c, class_⟩ := Option.isSome_iff_exists.1 scalar
  obtain ⟨b, -, bound, -⟩ := (closed_of_build built).scalars e he g mem c class_
  exact ⟨field?_of_build built he mem, b, bound⟩

/-- The identifier is one of the scalar fields. -/
theorem idField_mem_scalarFields (built : build name descriptors registry = .ok s)
    (he : e ∈ s.entities) : e.idField ∈ e.scalarFields := by
  obtain ⟨found, -, c, class_⟩ := (closed_of_build built).identifier e he
  exact List.mem_filter.2 ⟨List.mem_of_find?_eq_some found, by rw [class_]; rfl⟩

end QuerySchema

/-! ### Objects of scalar fields -/

namespace Reshape

/-- If the requested fields are scalar fields that can be answered, their
members are the answers. -/
theorem members_scalars {rows : List Row} {e : EntityType} {columns : List Column}
    {fs : List Document.Field} {gs : List SelectedField} {value : Document.Field → Json}
    (each : List.Forall₂ (Selection.Answers e columns) fs gs)
    (scalars : ∀ f ∈ fs, ∃ g b, e.field? f.name = some g ∧ g.binding = some b ∧
      (Columns.Asked columns f.name → scalarAnswer f.name b rows = .ok (value f))) :
    members rows gs = .ok (fs.map fun f => (f.responseKey, value f)) := by
  induction each with
  | nil => rfl
  | @cons f g fs gs here rest ih =>
    obtain ⟨g', b, found, bound, answered⟩ := scalars f List.mem_cons_self
    obtain ⟨rfl, asked⟩ := here.scalar g' b found bound
    have own : member rows (.scalar f.responseKey f.name b) = .ok (f.responseKey, value f) := by
      rw [member, answered asked]
      rfl
    rw [members, own, Outcome.ok_bind, ih fun f hf => scalars f (List.mem_cons_of_mem _ hf)]
    rfl

end Reshape

/-- An object of scalar fields that can be answered is made of these answers. -/
theorem Tables.objectOf_scalars {s : QuerySchema} {root : EntityType} {joins : Joins}
    {columns : List Column} {fs : List Document.Field} {gs : List SelectedField}
    {tables : Tables} {row : Row} {value : Document.Field → Json}
    (planned : Planned s root joins) (distinct : (columns.map (·.name)).Nodup)
    {named : String → Prop} (reads : ∀ c ∈ columns, c.Reads s root named joins)
    (each : List.Forall₂ (Selection.Answers root columns) fs gs)
    (keys : (fs.map (·.responseKey)).Nodup)
    (scalars : ∀ f ∈ fs, ∃ g b, root.field? f.name = some g ∧ g.binding = some b ∧
      b.output (cellOf (some row) g.descriptor.column) = .ok (value f))
    (apart : joins ≠ [] → ∀ f ∈ fs, Dotless f.name) :
    tables.objectOf joins columns gs row =
      .ok (.object (fs.map fun f => (f.responseKey, value f))) := by
  let rows := (tables.spread joins [(rootAlias, some row)]).map (resultOf columns)
  have answered : ∀ f ∈ fs, ∃ g b, root.field? f.name = some g ∧ g.binding = some b ∧
      (Columns.Asked columns f.name →
        Reshape.scalarAnswer f.name b rows = .ok (value f)) := by
    -- A scalar of the root has the same value in every row of the group.
    intro f hf
    obtain ⟨g, b, found, bound, answered⟩ := scalars f hf
    refine ⟨g, b, found, bound, fun asked => ?_⟩
    rw [scalarAnswer_spread planned distinct reads asked found fun joined => apart joined f hf,
      answered]
    rfl
  have keys : (Keyed.keys (fs.map fun f => (f.responseKey, value f))).Nodup := by
    rw [Keyed.keys, List.map_map]
    exact keys
  rw [objectOf, Reshape.members_scalars each answered]
  show Except.ok (Json.object (Keyed.ofPairs _)) = _
  rw [Keyed.ofPairs_eq_self keys]

/-! ### Requests for scalar fields -/

/-- The field is requested as a leaf of the entity. -/
def EntityType.Leaf (e : EntityType) (f : Document.Field) : Prop :=
  f.arguments = [] ∧ f.selection = [] ∧
    ∃ g b, e.field? f.name = some g ∧ g.binding = some b

/-- Requests for all scalar fields of an entity. -/
def EntityType.leaves (e : EntityType) : List Document.Field :=
  e.scalarFields.map fun g => .mk none g.name [] []

namespace QuerySchema

variable {s : QuerySchema} {name : String} {descriptors : List EntityDescriptor}
variable {registry : ScalarRegistry} {e : EntityType}

/-- What is requested for the scalar fields of a built entity are leaves of it.
-/
theorem leaf_of_build (built : build name descriptors registry = .ok s) (he : e ∈ s.entities) :
    ∀ f ∈ e.leaves, e.Leaf f := by
  intro f hf
  obtain ⟨g, hg, rfl⟩ := List.mem_map.1 hf
  obtain ⟨found, b, bound⟩ := scalarField_of_build built he hg
  exact ⟨rfl, rfl, g, b, found, bound⟩

/-- There is a leaf at least for the identifier. -/
theorem leaves_ne_nil_of_build (built : build name descriptors registry = .ok s)
    (he : e ∈ s.entities) : e.leaves ≠ [] :=
  List.ne_nil_of_mem (List.mem_map_of_mem (idField_mem_scalarFields built he))

/-- Scalar fields are answered under different keys. -/
theorem nodup_leaves_of_build (built : build name descriptors registry = .ok s)
    (he : e ∈ s.entities) : (e.leaves.map (·.responseKey)).Nodup := by
  rw [EntityType.leaves, List.map_map]
  exact (nodup_fields_of_build built he).sublist (List.filter_sublist.map _)

end QuerySchema

namespace Planner

open Selection

variable {s : QuerySchema} {vars : Variables} {e : EntityType} {a : String} {p : List String}

/-- A leaf can be planned. -/
theorem exists_planField {f : Document.Field} (leaf : e.Leaf f) (d : Draft) :
    ∃ g d', Gives (planField s vars e a p f) d g d' := by
  obtain ⟨label, name, arguments, selection⟩ := f
  obtain ⟨rfl, rfl, g, b, found, bound⟩ := leaf
  have planned : planField s vars e a p (.mk label name [] []) =
      planScalar vars e a p g b (.mk label name [] []) := by
    have found : e.field? name = some g := found
    rw [planField, found]
    dsimp only
    rw [bound]
  rw [planned]
  exact ⟨_, _, gives_bind.2 ⟨(), _, gives_project.2 rfl, gives_bind.2 ⟨(), _,
    gives_pure.2 ⟨rfl, rfl⟩, gives_pure.2 ⟨rfl, rfl⟩⟩⟩⟩

theorem exists_planFields {fs : List Document.Field} (leaves : ∀ f ∈ fs, e.Leaf f) (d : Draft) :
    ∃ gs d', Gives (planFields s vars e a p fs) d gs d' := by
  induction fs generalizing d with
  | nil => exact ⟨[], d, gives_pure.2 ⟨rfl, rfl⟩⟩
  | cons f fs ih =>
    obtain ⟨g, d₁, first⟩ : ∃ g d₁, Gives (planField s vars e a p f) d g d₁ :=
      exists_planField (leaves f List.mem_cons_self) d
    obtain ⟨gs, d₂, others⟩ := ih (fun f hf => leaves f (List.mem_cons_of_mem _ hf)) d₁
    refine ⟨g :: gs, d₂, ?_⟩
    rw [planFields]
    exact gives_bind.2 ⟨g, d₁, first, gives_bind.2 ⟨gs, d₂, others, gives_pure.2 ⟨rfl, rfl⟩⟩⟩

end Planner

namespace Document.Field

/-- The root field that selects these fields of an entity, without criteria. -/
def selecting (e : EntityType) (fs : List Document.Field) : Document.Field :=
  .mk none e.rootName [] [.mk none Selection.selectField [] fs]

theorem unordered_selecting {e : EntityType} {fs : List Document.Field}
    (leaves : ∀ f ∈ fs, e.Leaf f) : (selecting e fs).Throughout (·.Unordered) := by
  refine ⟨rfl, ⟨rfl, allThroughout_iff.2 fun f hf => ?_⟩, trivial⟩
  obtain ⟨label, name, arguments, selection⟩ := f
  obtain ⟨rfl, rfl, -⟩ := leaves _ hf
  exact ⟨rfl, trivial⟩

/-- Leaves request no associations. -/
theorem not_requests_of_leaves {e : EntityType} {fs : List Document.Field}
    (leaves : ∀ f ∈ fs, e.Leaf f) (path : List String) : ¬ Document.Requests fs path := by
  intro requests
  cases requests with
  | here mem inside => exact inside (leaves _ mem).2.1
  | deeper mem below =>
    rw [(leaves _ mem).2.1] at below
    exact Document.not_requests_nil below

end Document.Field

namespace Planning

open Planner Document.Field

variable {s : QuerySchema} {vars : Variables} {e : EntityType} {fs : List Document.Field}
variable {tables : Tables}

/-- Leaves of an entity can be selected. -/
theorem exists_planRootField (root : s.root? e.rootName = some e) (nonempty : fs ≠ [])
    (leaves : ∀ f ∈ fs, e.Leaf f) :
    ∃ plan, planRootField s vars (selecting e fs) = .ok plan := by
  obtain ⟨gs, d, fields⟩ : ∃ gs d, Gives (Selection.planFields s vars e rootAlias [] fs)
      Draft.empty gs d := exists_planFields leaves Draft.empty
  obtain ⟨node, d', planned⟩ : ∃ node d', Gives (Selection.planNode s vars e rootAlias [] fs)
      Draft.empty node d' :=
    ⟨_, _, gives_bind.2 ⟨gs, d, fields, gives_bind.2 ⟨_, _,
      gives_bind.2 ⟨(), _, gives_project.2 rfl, gives_pure.2 ⟨rfl, rfl⟩⟩,
      gives_pure.2 ⟨rfl, rfl⟩⟩⟩⟩
  -- A selection of leaves joins nothing and has no filter, so that no step of planning can fail.
  let selection : RootSelection := ⟨e.rootName, e.rootName, Selection.selectField, node⟩
  have selected : Gives (Selection.planRoot s vars e (selecting e fs)) Draft.empty
      selection d' := by
    obtain ⟨f, others, rfl⟩ := List.exists_cons_of_ne_nil nonempty
    exact gives_bind.2 ⟨some (.mk none Selection.selectField [] (f :: others)), _,
      gives_lift.2 ⟨rfl, rfl⟩, gives_bind.2 ⟨node, d', planned, gives_pure.2 ⟨rfl, rfl⟩⟩⟩
  exact ⟨⟨selection, none, finish e d' none⟩, planRootField_iff.2
    ⟨e, d', d', root, rfl, selected, rfl, gives_pure.2 ⟨rfl, rfl⟩, rfl⟩⟩

/-- Where nothing is joined, ordered or left out, the result has as many rows as
the table. -/
theorem PlanOf.exists_run_unjoined [Disorder] {named : String → Prop}
    {field select : Document.Field} {plan : RootPlan} {gs : List SelectedField}
    (p : PlanOf s named vars field plan e select gs) (identifies : tables.Identifies e)
    (unordered : field.Throughout (·.Unordered)) (unrestricted : plan.filter = none)
    (unjoined : plan.query.joins = []) :
    ∃ rows, tables.run plan.query = .ok rows ∧
      rows.length = (tables.rowsOf e.descriptor.qualifiedTable).length := by
  have table := identifies.find?_table
  rw [← p.table] at table
  have single : ∀ row, kept s e vars tables plan row = [[(rootAlias, some row)]] := by
    intro row
    rw [kept, unjoined, unrestricted]
    rfl
  refine ⟨_, p.run unordered table, ?_⟩
  rw [funext single, ← List.map_eq_flatMap, List.length_map, List.length_map, p.table]

/-- **What the scalar fields of the rows are answered with makes the answer of
a root field without criteria.** -/
theorem executeRoot_selecting [Disorder] {name : String} {descriptors : List EntityDescriptor}
    {registry : ScalarRegistry} (built : QuerySchema.build name descriptors registry = .ok s)
    (he : e ∈ s.entities) (identifies : tables.Identifies e) (nonempty : fs ≠ [])
    (leaves : ∀ f ∈ fs, e.Leaf f) (keys : (fs.map (·.responseKey)).Nodup) {α : Type}
    {items : List α} {value : α → Document.Field → Json}
    (shown : List.Forall₂ (fun item row => ∀ f ∈ fs, ∃ g b, e.field? f.name = some g ∧
      g.binding = some b ∧ b.output (cellOf (some row) g.descriptor.column) =
        .ok (value item f)) items (tables.rowsOf e.descriptor.qualifiedTable))
    {cap : Option Nat} (room : ∀ n ∈ cap, items.length ≤ n ∧ n ≤ Executor.greatestLimit) :
    (Executor.executeRoot ⟨s, cap⟩ (fun q => (pure (tables.run q) : Id _)) vars
      (selecting e fs)).run = .ok (.object [(Selection.selectField, .array (items.map
        fun item => .object (fs.map fun f => (f.responseKey, value item f))))]) := by
  have root : s.root? e.rootName = some e := by
    rw [QuerySchema.rootName_of_build built e he]
    exact QuerySchema.root?_of_build built he
  obtain ⟨plan, planned⟩ : ∃ plan, planRootField s vars (selecting e fs) = .ok plan :=
    exists_planRootField root nonempty leaves
  obtain ⟨select, gs, p⟩ := planOf_of_build built planned root
  obtain rfl : _ = select := List.singleton_inj.1 p.selects
  have noFilter : plan.filter = none := p.filter_eq_none rfl
  have unordered := unordered_selecting leaves
  have unjoined : plan.query.joins = [] := by
    by_contra joined
    obtain ⟨path, requests⟩ := requests_of_joins planned p.selects noFilter joined
    exact not_requests_of_leaves leaves path requests
  obtain ⟨askedId, each⟩ := p.answers planned
  have id := askedId.reads p.columns (QuerySchema.identified_of_build built e he)
    fun joined => absurd unjoined joined
  have objects : (tables.rowsOf e.descriptor.qualifiedTable).mapM
      (tables.objectOf plan.query.joins plan.query.columns gs) =
        .ok (items.map fun item => .object (fs.map fun f => (f.responseKey, value item f))) := by
    refine Outcome.mapM_eq_ok.2 (List.forall₂_map_right_iff.2 (shown.flip.imp ?_))
    intro row item scalars
    exact Tables.objectOf_scalars p.joins p.distinct p.columns each keys scalars
      fun joined => absurd unjoined joined
  obtain ⟨rows, run, many⟩ := p.exists_run_unjoined identifies unordered noFilter unjoined
  rw [← shown.length_eq] at many
  rw [Executor.executeRoot_within p planned run (many ▸ room),
    p.executeRoot_unrestricted planned identifies id unordered noFilter, objects]
  rfl

end Planning

/-! ### Inserted objects -/

/-- The scalars of an entity take what an object gives to their fields for
these values, and for null where it is null or missing.  What is stored as text
is to be read back from it. -/
structure EntityType.Takes (e : EntityType) (members : List (String × Json))
    (value : SchemaField → Json) : Prop where
  distinct : (Keyed.keys members).Nodup
  null : ∀ g ∈ e.scalarFields, ((Json.object members).member g.name).isNull = true →
    value g = .null
  taken : ∀ g ∈ e.scalarFields, ∀ b, g.binding = some b →
    ((Json.object members).member g.name).isNull = false →
      b.coercion.literal ((Json.object members).member g.name) = .ok (value g)
  document : ∀ g ∈ e.scalarFields, ∀ b, g.binding = some b → b.coercion = .document →
    ((Json.object members).member g.name).Faithful ∧
      ((Json.object members).member g.name).depth ≤ Json.maxDepth

/-- The row of an object is answered with what the object was taken for. -/
theorem EntityType.Takes.output {e : EntityType} {members : List (String × Json)}
    {value : SchemaField → Json} (takes : e.Takes members value) {row : Row}
    (made : Tables.rowOf e [] members = .ok row) {g : SchemaField} (hg : g ∈ e.scalarFields)
    (found : e.field? g.name = some g) (alone : e.Alone g) {b : ScalarBinding}
    (bound : g.binding = some b) :
    b.output (cellOf (some row) g.descriptor.column) = .ok (value g) := by
  rw [Tables.cell_rowOf found alone takes.distinct made]
  cases null : ((Json.object members).member g.name).isNull with
  | true => rw [takes.null g hg null, ScalarBinding.output_storedForm_null b null]
  | false =>
    exact ScalarBinding.output_storedForm bound null (takes.taken g hg b bound null)
      (takes.document g hg b bound)

namespace Planning

open Document.Field

variable {s : QuerySchema} {e : EntityType} {tables : Tables}
variable {inserted : List (List (String × Json))}
variable {value : List (String × Json) → SchemaField → Json}

/-- A root field that asks for all scalar fields is answered with what the
objects were taken for that the rows are made of. -/
theorem executeRoot_leaves [Disorder] {name : String} {descriptors : List EntityDescriptor}
    {registry : ScalarRegistry} (built : QuerySchema.build name descriptors registry = .ok s)
    (he : e ∈ s.entities) (alone : ∀ g ∈ e.scalarFields, e.Alone g)
    (made : e.RowsOf inserted (tables.rowsOf e.descriptor.qualifiedTable))
    (nonempty : inserted ≠ []) (takes : ∀ members ∈ inserted, e.Takes members (value members))
    (present : ∀ members ∈ inserted,
      ((Json.object members).member e.idField.name).isNull = false)
    (apart : (inserted.map fun members =>
      ((Json.object members).member e.idField.name).text).Nodup)
    {cap : Option Nat} (room : ∀ n ∈ cap, inserted.length ≤ n ∧ n ≤ Executor.greatestLimit)
    (vars : Variables) :
    (Executor.executeRoot ⟨s, cap⟩ (fun q => (pure (tables.run q) : Id _)) vars
      (selecting e e.leaves)).run =
        .ok (.object [(Selection.selectField, .array (inserted.map fun members =>
          .object (e.scalarFields.map fun g => (g.name, value members g))))]) := by
  have scalar : ∀ g ∈ e.scalarFields, e.field? g.name = some g ∧ ∃ b, g.binding = some b :=
    fun g hg => QuerySchema.scalarField_of_build built he hg
  have id := QuerySchema.idField_mem_scalarFields built he
  have identifies := Tables.identifies_of_rowsOf (scalar _ id).1 (alone _ id)
    (fun members hm => (takes members hm).distinct) nonempty present apart made rfl
  -- A leaf is answered with the value of its field.
  let answer := fun members (f : Document.Field) =>
    ((e.field? f.name).map (value members)).getD .null
  have answered : ∀ g ∈ e.scalarFields, ∀ members,
      answer members (.mk none g.name [] []) = value members g := by
    intro g hg members
    show ((e.field? g.name).map (value members)).getD .null = _
    rw [(scalar g hg).1]
    rfl
  have shown : List.Forall₂ (fun members row => ∀ f ∈ e.leaves, ∃ g b,
      e.field? f.name = some g ∧ g.binding = some b ∧
        b.output (cellOf (some row) g.descriptor.column) = .ok (answer members f))
      inserted (tables.rowsOf e.descriptor.qualifiedTable) := by
    refine ((List.forall₂_and_left _ _).2 ⟨takes, made⟩).imp fun members row h f hf => ?_
    obtain ⟨g, hg, rfl⟩ := List.mem_map.1 hf
    obtain ⟨found, b, bound⟩ := scalar g hg
    refine ⟨g, b, found, bound, ?_⟩
    rw [answered g hg]
    exact h.1.output h.2 hg found (alone g hg) bound
  have fields : ∀ members, (e.leaves.map fun f => (f.responseKey, answer members f)) =
      e.scalarFields.map fun g => (g.name, value members g) := by
    intro members
    rw [EntityType.leaves, List.map_map]
    refine List.map_congr_left fun g hg => ?_
    rw [← answered g hg members]
    rfl
  rw [executeRoot_selecting built he identifies (QuerySchema.leaves_ne_nil_of_build built he)
    (QuerySchema.leaf_of_build built he) (QuerySchema.nodup_leaves_of_build built he) shown
    room]
  simp only [fields]

/-- **Inserted objects are answered as they were given**, in order, by whatever
calls they were inserted into a store that had no rows for their entity.  A
call that fails leaves the tables as they were. -/
theorem executeRoot_inserted [Disorder] {name : String} {descriptors : List EntityDescriptor}
    {registry : ScalarRegistry} (built : QuerySchema.build name descriptors registry = .ok s)
    (he : e ∈ s.entities)
    (own : ∀ e' ∈ s.entities, e'.descriptor.qualifiedTable = e.descriptor.qualifiedTable → e' = e)
    (alone : ∀ g ∈ e.scalarFields, e.Alone g)
    -- The objects that are inserted, and what they are taken for.
    (empty : tables.rowsOf e.descriptor.qualifiedTable = []) {calls : List (String × Json)}
    (objects : calls.filterMap e.inserted? = inserted) (nonempty : inserted ≠ [])
    (takes : ∀ members ∈ inserted, e.Takes members (value members))
    -- Their identifiers tell them apart.
    (present : ∀ members ∈ inserted,
      ((Json.object members).member e.idField.name).isNull = false)
    (apart : (inserted.map fun members =>
      ((Json.object members).member e.idField.name).text).Nodup)
    -- There may be a cap on the rows.
    {cap : Option Nat} (room : ∀ n ∈ cap, inserted.length ≤ n ∧ n ≤ Executor.greatestLimit)
    (vars : Variables) :
    (Executor.executeRoot ⟨s, cap⟩
      (fun q => (pure (((StoreAction.insertAll s calls).run tables).2.run q) : Id _)) vars
        (selecting e e.leaves)).run =
      .ok (.object [(Selection.selectField, .array (inserted.map fun members =>
        .object (e.scalarFields.map fun g => (g.name, value members g))))]) ∧
    ∀ (entity : String) (object : Json) (fault : StoreError) (tables tables' : Tables),
      (StoreAction.insert s entity object).run.run tables = (.error fault, tables') ↔
        Refused s entity object fault ∧ tables' = tables := by
  refine ⟨?_, fun entity object fault tables tables' => StoreAction.insert_eq_error⟩
  obtain ⟨rows, made, table⟩ := StoreAction.rowsOf_insertAll
    (QuerySchema.entity?_of_build built he) own calls tables
  rw [objects] at made
  rw [empty, List.nil_append] at table
  exact executeRoot_leaves built he alone (table ▸ made) nonempty takes present apart room vars

end Planning

/-! ### The notebook -/

namespace Sample

/-- Two notes: the identifier of one is given as a number, and the other has
no tags. -/
def given : List (List (String × Json)) :=
  [[("id", .ofInt 7), ("tags", remarks)], [("OR", .null), ("id", .string "8")]]

/-- A note with a member that names no field. -/
def moody : Json := .object [("id", .string "9"), ("mood", .null)]

/-- Calls that insert the two notes, and two that fail. -/
def calls : List (String × Json) :=
  [("Note", .object [("id", .ofInt 7), ("tags", remarks)]), ("Poem", .object []),
    ("Note", moody), ("Note", .object [("OR", .null), ("id", .string "8")])]

/-- What the scalar of a field takes the member of an object for. -/
def taken (members : List (String × Json)) (g : SchemaField) : Json :=
  (g.binding.bind fun b =>
    (b.coercion.literal ((Json.object members).member g.name)).toOption).getD .null

theorem forall_mem_scalarFields {P : SchemaField → Prop} (number : P id)
    (tags : P (remark "tags")) (other : P (remark "OR")) : ∀ g ∈ notes.scalarFields, P g :=
  List.forall_mem_cons.2 ⟨number, List.forall_mem_cons.2 ⟨tags, List.forall_mem_singleton.2 other⟩⟩

theorem notes_alone : ∀ g ∈ notes.scalarFields, notes.Alone g := by
  refine forall_mem_scalarFields ?_ (remark_alone (.inl rfl)) (remark_alone (.inr rfl))
  refine EntityType.alone_of_forall (List.forall_mem_cons.2 ⟨fun _ => rfl,
    List.forall_mem_cons.2 ⟨fun same => ?_, List.forall_mem_singleton.2 fun same => ?_⟩⟩)
  · exact absurd same (by decide)
  · exact absurd same (by decide)

theorem given_takes : ∀ members ∈ given, notes.Takes members (taken members) := by
  refine List.forall_mem_cons.2 ⟨?_, List.forall_mem_singleton.2 ?_⟩
  · refine ⟨by decide, forall_mem_scalarFields nofun nofun fun _ => rfl,
      forall_mem_scalarFields ?_ ?_ nofun, forall_mem_scalarFields ?_ ?_ ?_⟩
    · rintro b ⟨⟩ -
      rfl
    · rintro b ⟨⟩ -
      rfl
    · exact fun _ _ _ => ⟨.inl rfl, Nat.zero_le _⟩
    · exact fun _ _ _ => ⟨remarks_faithful.1, by decide⟩
    · exact fun _ _ _ => ⟨trivial, Nat.zero_le _⟩
  · refine ⟨by decide, forall_mem_scalarFields nofun (fun _ => rfl) fun _ => rfl,
      forall_mem_scalarFields ?_ nofun nofun, forall_mem_scalarFields ?_ ?_ ?_⟩
    · rintro b ⟨⟩ -
      rfl
    all_goals exact fun _ _ _ => ⟨trivial, Nat.zero_le _⟩

end Sample

open Sample in
/-- In the notebook the two notes are answered in order, even with a cap of two
rows, and the note with another member leaves nothing behind. -/
theorem executeRoot_inserted_notebook :
    (Executor.executeRoot ⟨notebook, some 2⟩
      (fun q => (pure (((StoreAction.insertAll notebook calls).run Tables.empty).2.run q) : Id _))
        [] (Document.Field.selecting notes notes.leaves)).run =
      .ok (.object [("select", .array [
        .object [("id", .string "7"), ("tags", remarks), ("OR", .null)],
        .object [("id", .string "8"), ("tags", .null), ("OR", .null)]])]) ∧
    (StoreAction.insert notebook "Note" moody).run.run Tables.empty =
      (.error (.malformedRow "Note has no field 'mood'"), Tables.empty) := by
  have empty : Tables.empty.rowsOf notes.descriptor.qualifiedTable = [] := rfl
  have inserted : calls.filterMap notes.inserted? = given := rfl
  have room : ∀ n ∈ some 2, given.length ≤ n ∧ n ≤ Executor.greatestLimit := by
    rintro n ⟨⟩
    exact ⟨Nat.le_refl 2, by decide⟩
  obtain ⟨answered, failed⟩ := Planning.executeRoot_inserted notebook_built List.mem_cons_self
    (List.forall_mem_singleton.2 fun _ => rfl) notes_alone empty inserted
    (List.cons_ne_nil _ _) given_takes (by decide) (by decide) room []
  refine ⟨answered, (failed _ _ _ _ _).2 ⟨?_, rfl⟩⟩
  have first : ∀ member ∈ [("id", Json.string "9")], (notes.field? member.1).isSome := by decide
  exact .unknownField (e := notes) rfl rfl first rfl

end EntityQuery
