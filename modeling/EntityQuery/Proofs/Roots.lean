/-
EntityQuery/Proofs/Roots.lean

The answer of a root field, row by row.

The joins of a root field spread each row of the root over the rows that are
found from it, and regrouping brings these together again.  If identifiers tell
the root rows apart, the object made of a root row depends on that row and the
store, but not on the other rows that are asked for (`Tables.objects_roots`).
Nothing is needed of the rows of other entities, whose identifiers may repeat.

In this object a scalar field is the answer for the row's own cell
(`Tables.member_of_objectOf`).
-/
import EntityQuery.Proofs.Joined
import EntityQuery.Proofs.Navigation

namespace EntityQuery

open Store Joins

/-! ### What is asked for at the root -/

/-- A column of the name is asked for. -/
def Columns.Asked (columns : List Column) (name : String) : Prop := ∃ c ∈ columns, c.name = name

theorem Columns.Asked.mono {columns more : List Column} {name : String}
    (asked : Columns.Asked columns name) (h : columns <+: more) : Columns.Asked more name := by
  obtain ⟨c, hc, same⟩ := asked
  exact ⟨c, h.subset hc, same⟩

/-- A column under the name of a field of the root reads this field, unless the
name could be that of a field below. -/
theorem Columns.Asked.reads {s : QuerySchema} {root : EntityType} {named : String → Prop}
    {joins : Joins} {columns : List Column} {name : String} {field : SchemaField}
    (asked : Columns.Asked columns name) (reads : ∀ c ∈ columns, c.Reads s root named joins)
    (found : root.field? name = some field) (apart : joins ≠ [] → Dotless name) :
    ⟨.column rootAlias field.descriptor.column, name⟩ ∈ columns := by
  obtain ⟨c, hc, same⟩ := asked
  have reads := reads c hc
  cases reads with
  | @mk q g a e field' entity found' joined names =>
    have own : q = [] := by
      by_contra below
      obtain ⟨j, hj, -⟩ := exists_join_of_aliasOf? joined below
      exact below (Selection.columnName_dotless (apart (List.ne_nil_of_mem hj)) same).1
    subst own
    obtain rfl : g = name := same
    cases joined
    cases entity
    rw [Option.some.inj (found.symm.trans found')]
    exact hc

/-- The name under which a selected field is answered. -/
def SelectedField.responseKey : SelectedField → String
  | .scalar key _ _ => key
  | .association key _ _ => key

/-- What is planned for a requested field of the root: it is answered under the
key of the field, and a scalar from a column of its name. -/
structure Selection.Answers (e : EntityType) (columns : List Column) (f : Document.Field)
    (g : SelectedField) : Prop where
  key : g.responseKey = f.responseKey
  scalar : ∀ field b, e.field? f.name = some field → field.binding = some b →
    g = .scalar f.responseKey f.name b ∧ Columns.Asked columns f.name

/-- A field that answers another does so when columns are added. -/
theorem Selection.Answers.mono {e : EntityType} {columns more : List Column}
    {f : Document.Field} {g : SelectedField} (answers : Answers e columns f g)
    (h : columns <+: more) : Answers e more f g where
  key := answers.key
  scalar := fun field b found bound =>
    (answers.scalar field b found bound).imp_right fun asked => asked.mono h

namespace Planner

open Selection

variable {s : QuerySchema} {vars : Variables} {e : EntityType} {a : String} {d d' : Draft}

/-- A column that was projected is asked for. -/
theorem asked_of_project {expr : Expr} {name : String} {u : Unit}
    (h : Gives (project expr name) d u d') : Columns.Asked d'.columns name := by
  rw [gives_project.1 h]
  split
  · next asked =>
    obtain ⟨c, hc, same⟩ := List.any_eq_true.1 asked
    exact ⟨c, hc, of_decide_eq_true same⟩
  · exact ⟨_, List.mem_append_right _ List.mem_cons_self, rfl⟩

theorem answers_planField {f : Document.Field} {g : SelectedField}
    (h : Gives (planField s vars e a [] f) d g d') : Answers e d'.columns f g := by
  cases f with
  | mk label name arguments selection =>
  obtain ⟨field, found, scalar | association⟩ := planField_cases h
  · obtain ⟨b, bound, h⟩ := scalar
    obtain ⟨-, rfl, u, d₁, u', asked, ordered⟩ := gives_planScalar h
    obtain ⟨more, rfl, -⟩ := gives_orderArguments ordered
    refine ⟨rfl, fun field' b' found' bound' => ?_⟩
    cases found.symm.trans found'
    cases bound.symm.trans bound'
    have named : Columns.Asked d₁.columns name := asked_of_project asked
    exact ⟨rfl, named⟩
  · obtain ⟨bound, -, -, next, target, fields, id, d₁, d₂, -, -, -, rfl⟩ := association
    refine ⟨rfl, fun field' b' found' bound' => ?_⟩
    cases found.symm.trans found'
    cases bound.symm.trans bound'

theorem answers_planFields {fs : List Document.Field} {gs : List SelectedField}
    (h : Gives (planFields s vars e a [] fs) d gs d') :
    List.Forall₂ (Answers e d'.columns) fs gs := by
  induction fs generalizing gs d with
  | nil =>
    obtain ⟨rfl, -⟩ := gives_pure.1 h
    exact .nil
  | cons f fs ih =>
    obtain ⟨g, gs, d₁, rfl, first, others⟩ := planFields_cons h
    have grown := Keeps.planFields cumulative_grows grows_join grows_project grows_orderBy
      _ _ _ _ _ _ _ _ _ others
    exact .cons ((answers_planField first).mono grown.columns) (ih others)

end Planner

/-! ### Groups of root rows -/

/-- Only one element has the key of an element, if keys do not repeat. -/
theorem filter_key_eq {α β : Type} [DecidableEq β] {key : α → β} {xs : List α} {x : α}
    (nodup : (xs.map key).Nodup) (hx : x ∈ xs) :
    (xs.filter fun y => decide (key y = key x)) = [x] := by
  induction xs with
  | nil => cases hx
  | cons y ys ih =>
    obtain ⟨fresh, nodup⟩ := List.nodup_cons.1 nodup
    -- The element itself, and no other with its key.
    rcases List.mem_cons.1 hx with rfl | hx
    · have none : (ys.filter fun y => decide (key y = key x)) = [] := by
        refine List.filter_eq_nil_iff.2 fun y hy same => fresh ?_
        rw [← of_decide_eq_true same]
        exact List.mem_map_of_mem hy
      rw [List.filter_cons, if_pos (decide_eq_true rfl), none]
    · have apart : ¬ decide (key y = key x) = true := by
        intro same
        apply fresh
        rw [of_decide_eq_true same]
        exact List.mem_map_of_mem hx
      rw [List.filter_cons, if_neg apart, ih nodup hx]

namespace Tables

variable {s : QuerySchema} {root : EntityType} {joins : Joins} {tables : Tables}
variable {columns : List Column} {column : String} {p : Row → Bool}

/-- The bindings that have a certain row at the root are those made of it. -/
theorem parted_root (planned : Planned s root joins) (identifies : tables.Identifies root)
    {row : Row} (hr : row ∈ (tables.rowsOf root.descriptor.qualifiedTable).filter p) :
    tables.parted joins ((tables.rowsOf root.descriptor.qualifiedTable).filter p)
        (narrowed (fun _ => true) root [] row) =
      tables.spread joins [(rootAlias, some row)] := by
  -- The identifiers tell this row from the others, so it is the only one left.
  have text : ∀ other ∈ (tables.rowsOf root.descriptor.qualifiedTable).filter p,
      ∀ binding ∈ tables.spread joins [(rootAlias, some other)],
        narrowed (fun _ => true) root [] row (choiceOf joins binding) =
          decide ((cellOf (some other) root.idColumn).text =
            (cellOf (some row) root.idColumn).text) := by
    intro other ho binding hb
    simp only [narrowed]
    rw [choiceOf_root_of_mem_spread planned hb, identifies.idText? (List.mem_filter.1 ho).1]
    simp
  have nodup := identifies.distinct.sublist
    ((List.filter_sublist (p := p) (l := tables.rowsOf root.descriptor.qualifiedTable)).map _)
  simp only [parted, bindings]
  rw [filter_flatMap_eq text, filter_key_eq nodup hr, List.flatMap_singleton]

/-- The groups of the rows that are made of some rows of the root are made of
one row each. -/
theorem groups_roots (planned : Planned s root joins)
    (distinct : (columns.map (·.name)).Nodup) (identifies : tables.Identifies root)
    (asked : ⟨.column rootAlias root.idColumn, column⟩ ∈ columns) :
    Reshape.groups column ((tables.bindings joins
        ((tables.rowsOf root.descriptor.qualifiedTable).filter p)).map (resultOf columns)) =
      ((tables.rowsOf root.descriptor.qualifiedTable).filter p).map fun row =>
        (tables.spread joins [(rootAlias, some row)]).map (resultOf columns) := by
  have whole : ∀ rows, tables.bindings joins rows = tables.parted joins rows fun _ => true :=
    fun rows => (List.filter_eq_self.2 fun _ _ => rfl).symm
  have shown := identifiers_root (p := p) planned identifies
  rw [whole] at shown ⊢
  rw [groups_parted planned distinct (aliasOf?_nil _) asked shown]
  refine List.map_congr_left fun row hr => ?_
  rw [parted_root planned identifies hr]

/-- The object that is made of a row of the root: the answers of the selected
fields, from the rows of the result that come from this row. -/
def objectOf (tables : Tables) (joins : Joins) (columns : List Column)
    (fields : List SelectedField) (row : Row) : Except DecodeError Json :=
  (Reshape.members ((tables.spread joins [(rootAlias, some row)]).map (resultOf columns))
    fields).map fun pairs => .object (Keyed.ofPairs pairs)

/-- Regrouping makes one object of each row of the root, whichever rows are
asked for. -/
theorem objects_roots (planned : Planned s root joins)
    (distinct : (columns.map (·.name)).Nodup) (identifies : tables.Identifies root)
    (asked : ⟨.column rootAlias root.idColumn, column⟩ ∈ columns)
    {entity tableAlias : String} {path : List String} {fields : List SelectedField} :
    Reshape.objects ((tables.bindings joins
        ((tables.rowsOf root.descriptor.qualifiedTable).filter p)).map (resultOf columns))
          (.mk entity path tableAlias column fields) =
      ((tables.rowsOf root.descriptor.qualifiedTable).filter p).mapM
        (tables.objectOf joins columns fields) := by
  rw [Reshape.objects, groups_roots planned distinct identifies asked, Outcome.mapM_map]
  exact Outcome.map_mapM

end Tables

/-! ### Members of answers -/

/-- The member of an object, null if it has none of the name. -/
def Json.member (name : String) : Json → Json
  | .object members => (Keyed.find? members name).getD .null
  | _ => .null

namespace Reshape

variable {rows : List Row} {e : EntityType} {columns : List Column}
variable {fs : List Document.Field} {gs : List SelectedField} {pairs : List (String × Json)}

theorem key_of_member {g : SelectedField} {answer : String × Json}
    (h : member rows g = .ok answer) : answer.1 = g.responseKey := by
  cases g with
  | scalar key column b =>
    obtain ⟨value, -, h⟩ := Outcome.bind_eq_ok.1 h
    cases h
    rfl
  | association key cardinality node =>
    obtain ⟨objects, -, h⟩ := Outcome.bind_eq_ok.1 h
    cases h
    rfl

theorem keys_members (each : List.Forall₂ (Selection.Answers e columns) fs gs)
    (h : members rows gs = .ok pairs) : Keyed.keys pairs = fs.map (·.responseKey) := by
  induction each generalizing pairs with
  | nil =>
    cases h
    rfl
  | @cons f g fs gs here rest ih =>
    rw [members] at h
    obtain ⟨answer, own, h⟩ := Outcome.bind_eq_ok.1 h
    obtain ⟨answers, others, h⟩ := Outcome.bind_eq_ok.1 h
    cases h
    rw [List.map_cons, ← ih others, ← here.key, ← key_of_member own]
    rfl

/-- A scalar field is answered, under its key, from the column of its name. -/
theorem mem_members (each : List.Forall₂ (Selection.Answers e columns) fs gs)
    (h : members rows gs = .ok pairs) {f : Document.Field} (hf : f ∈ fs) {field : SchemaField}
    {b : ScalarBinding} (found : e.field? f.name = some field)
    (bound : field.binding = some b) :
    Columns.Asked columns f.name ∧
      ∃ value, scalarAnswer f.name b rows = .ok value ∧ (f.responseKey, value) ∈ pairs := by
  induction each generalizing pairs with
  | nil => cases hf
  | @cons f' g fs gs here rest ih =>
    rw [members] at h
    obtain ⟨answer, own, h⟩ := Outcome.bind_eq_ok.1 h
    obtain ⟨answers, others, h⟩ := Outcome.bind_eq_ok.1 h
    cases h
    rcases List.mem_cons.1 hf with rfl | hf
    · obtain ⟨rfl, asked⟩ := here.scalar field b found bound
      obtain ⟨value, stored, own⟩ := Outcome.bind_eq_ok.1 own
      cases own
      exact ⟨asked, value, stored, List.mem_cons_self⟩
    · obtain ⟨asked, value, stored, among⟩ := ih others hf
      exact ⟨asked, value, stored, List.mem_cons_of_mem _ among⟩

end Reshape

namespace Tables

variable {s : QuerySchema} {root : EntityType} {joins : Joins} {tables : Tables}
variable {columns : List Column} {fs : List Document.Field} {gs : List SelectedField} {row : Row}

/-- A scalar field of the root is answered, from what comes from a row, with
the row's own cell. -/
theorem scalarAnswer_spread (planned : Planned s root joins)
    (distinct : (columns.map (·.name)).Nodup) {named : String → Prop}
    (reads : ∀ c ∈ columns, c.Reads s root named joins) {name : String}
    (asked : Columns.Asked columns name) {field : SchemaField}
    (found : root.field? name = some field) (apart : joins ≠ [] → Dotless name)
    (b : ScalarBinding) (row : Row) :
    Reshape.scalarAnswer name b
        ((tables.spread joins [(rootAlias, some row)]).map (resultOf columns)) =
      (b.output (cellOf (some row) field.descriptor.column)).mapError
        fun e => ⟨name, e.message⟩ := by
  -- The first row of the result is made of this row, as all are.
  obtain ⟨first, others, spread⟩ := List.exists_cons_of_ne_nil (spread_root_ne_nil planned row)
  have head : first ∈ tables.spread joins [(rootAlias, some row)] := by
    rw [spread]
    exact List.mem_cons_self
  have covers : Covers joins first :=
    (tables.spans_of_mem_spread planned (spans_root (some row)) head).1.covers
  have cell := cell_resultOf distinct covers (asked.reads reads found apart) (aliasOf?_nil _)
  rw [choiceOf_root_of_mem_spread planned head] at cell
  rw [spread, List.map_cons, ← cell]
  rfl

/-- In the object that is made of a row, the member for a scalar field is the
answer for the row's own cell. -/
theorem member_of_objectOf (planned : Planned s root joins)
    (distinct : (columns.map (·.name)).Nodup) {named : String → Prop}
    (reads : ∀ c ∈ columns, c.Reads s root named joins)
    (each : List.Forall₂ (Selection.Answers root columns) fs gs)
    (keys : (fs.map (·.responseKey)).Nodup) {object : Json}
    (h : tables.objectOf joins columns gs row = .ok object) {f : Document.Field} (hf : f ∈ fs)
    {field : SchemaField} {b : ScalarBinding} (found : root.field? f.name = some field)
    (bound : field.binding = some b) (apart : joins ≠ [] → Dotless f.name) :
    b.output (cellOf (some row) field.descriptor.column) =
      .ok (object.member f.responseKey) := by
  obtain ⟨pairs, made, rfl⟩ := Outcome.map_eq_ok.1 h
  obtain ⟨asked, value, stored, among⟩ := Reshape.mem_members each made hf found bound
  rw [← Reshape.keys_members each made] at keys
  simp only [Json.member]
  rw [Keyed.ofPairs_eq_self keys, Keyed.find?_of_mem keys among, Option.getD_some]
  -- The rows of one object agree on the scalars of the root.
  rw [scalarAnswer_spread planned distinct reads asked found apart] at stored
  exact Outcome.mapError_eq_ok.1 stored

end Tables

/-! ### Executing a root field -/

namespace Planning

open Planner

variable {s : QuerySchema} {named : String → Prop} {vars : Variables} {field : Document.Field}
variable {plan : RootPlan} {entity : EntityType} {select : Document.Field}
variable {gs : List SelectedField} {tables : Tables}

/-- A plan asks for the identifier of the root, and answers its requested
fields. -/
theorem PlanOf.answers (p : PlanOf s named vars field plan entity select gs)
    (planned : planRootField s vars field = .ok plan) :
    Columns.Asked plan.query.columns entity.idField.name ∧
      List.Forall₂ (Selection.Answers entity plan.query.columns) select.selection gs := by
  obtain ⟨entity', d, condition, root, run, query⟩ := planRootField_eq_ok planned
  cases p.root.symm.trans root
  obtain ⟨d₁, selected, -, compiled⟩ := gives_planParts.1 run
  -- Compiling the filter adds no columns to those that the selection asked for.
  have kept := Keeps.compileFilter cumulative_keepsColumns keepsColumns_bindValue
    keepsColumns_join _ _ _ _ _ _ _ compiled
  have columns : plan.query.columns = d₁.columns := by
    rw [query]
    exact kept.1
  obtain ⟨select', gs', id, d₂, only, fields, asked, selection⟩ := gives_planRoot selected
  obtain rfl : select = select' := List.singleton_inj.1 (p.selects.symm.trans only)
  have same : gs' = gs := congrArg (·.node.fields) (selection.symm.trans p.selection)
  have grown := Keeps.projectId cumulative_grows grows_project _ _ _ _ _ _ asked
  obtain ⟨u, d₃, projected, named⟩ := gives_bind.1 asked
  obtain ⟨-, rfl⟩ := gives_pure.1 named
  rw [columns]
  refine ⟨asked_of_project projected, ?_⟩
  rw [← same]
  exact (answers_planFields fields).imp fun f g answers => answers.mono grown.columns

/-- Executing a planned root field makes an object of each root row on which
its condition is true. -/
theorem PlanOf.executeRoot [Disorder] (p : PlanOf s named vars field plan entity select gs)
    (planned : planRootField s vars field = .ok plan)
    (identifies : tables.Identifies entity)
    (asked : ⟨.column rootAlias entity.idColumn, entity.idField.name⟩ ∈ plan.query.columns)
    (unordered : field.Throughout (·.Unordered))
    (rootOnly : ∀ f, plan.filter = some f → f.RootOnly) :
    (Executor.executeRoot ⟨s, none⟩ (fun q => (pure (tables.run q) : Id _)) vars field).run =
      ((((tables.rowsOf entity.descriptor.qualifiedTable).filter plan.query.holds).mapM
        (tables.objectOf plan.query.joins plan.query.columns gs)).mapError .decode).map
          fun objects => .object [(select.responseKey, .array objects)] := by
  have table := identifies.find?_table
  rw [← p.table] at table
  have run := p.run unordered table
  rw [p.flatMap_kept rootOnly, p.table] at run
  rw [Executor.executeRoot_uncapped planned p.limit, run, Executor.answer_uncapped, p.selection,
    Tables.objects_roots p.joins p.distinct identifies asked]

end Planning

end EntityQuery
