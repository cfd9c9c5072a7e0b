/-
EntityQuery/Proofs/Plan.lean

What the plan of a root field is.

A root field that can be planned names an entity of the schema and selects
once.  Its query starts from the table of that entity; the joins, the columns
and the condition have the shape that the other modules speak of
(`Planning.PlanOf`).  Everything that is said about planned queries later
comes from this one statement, without looking at the planner again.

Schemas that are built from entity models fit it, because the identifier of
an entity is one of its fields (`QuerySchema.identified_of_build`).
-/
import EntityQuery.Proofs.Built
import EntityQuery.Proofs.Columns

namespace EntityQuery

open Planner Store

/-! ### Filters leave the columns alone -/

namespace Planner

/-- A change that leaves the columns and the order as they were. -/
def KeepsColumns (d d' : Draft) : Prop := d'.columns = d.columns ∧ d'.order = d.order

theorem cumulative_keepsColumns : Cumulative KeepsColumns :=
  ⟨fun _ => ⟨rfl, rfl⟩, fun h₁ h₂ => ⟨h₂.1.trans h₁.1, h₂.2.trans h₁.2⟩⟩

theorem keepsColumns_bindValue : KeptByBinding KeepsColumns := by
  intro value d e d' h
  obtain ⟨-, rfl⟩ := gives_bindValue.1 h
  exact ⟨rfl, rfl⟩

/-- Joining adds no column and no sort key. -/
theorem keepsColumns_join : KeptByJoining KeepsColumns := by
  intro schema parent parentAlias path field d outcome d' h
  obtain ⟨target, joins, -, -, -, rfl⟩ := gives_join.1 h
  exact ⟨rfl, rfl⟩

end Planner

/-! ### Selections bind nothing -/

namespace Planner

/-- A change that binds nothing. -/
def KeepsParameters (d d' : Draft) : Prop := d'.parameters = d.parameters

theorem cumulative_keepsParameters : Cumulative KeepsParameters :=
  ⟨fun _ => rfl, fun h₁ h₂ => h₂.trans h₁⟩

theorem keepsParameters_join : KeptByJoining KeepsParameters := by
  intro schema parent parentAlias path field d outcome d' h
  obtain ⟨target, joins, -, -, -, rfl⟩ := gives_join.1 h
  rfl

theorem keepsParameters_project : KeptByProjecting KeepsParameters := by
  intro expr name d u d' h
  rw [gives_project.1 h]
  split <;> rfl

theorem keepsParameters_orderBy : KeptByOrdering KeepsParameters := by
  intro expr direction d u d' h
  rw [gives_orderBy.1 h]
  rfl

end Planner

/-! ### Orders -/

namespace Planner

open Selection

/-- Adding a column adds no sort key. -/
theorem gives_project_order {column : Expr} {name : String} {d d' : Draft} {u : Unit}
    (h : Gives (project column name) d u d') : d'.order = d.order := by
  rw [gives_project.1 h]
  split <;> rfl

theorem gives_projectId_order {e : EntityType} {a name : String} {p : List String}
    {d d' : Draft} (h : Gives (projectId e a p) d name d') : d'.order = d.order := by
  obtain ⟨u, d₁, asked, h⟩ := gives_bind.1 h
  obtain ⟨-, rfl⟩ := gives_pure.1 h
  exact gives_project_order asked

mutual

/-- Planning a field that asks for no order adds none. -/
theorem gives_planField_order {s : QuerySchema} {vars : Variables} {e : EntityType} {a : String}
    {p : List String} {f : Document.Field} {g : SelectedField} {d d' : Draft}
    (h : Gives (planField s vars e a p f) d g d')
    (unordered : f.Throughout (·.Unordered)) : d'.order = d.order := by
  cases f with
  | mk label name arguments selection =>
  obtain ⟨none, below⟩ := unordered
  obtain ⟨field, found, scalar | association⟩ := planField_cases h
  · obtain ⟨b, bound, h⟩ := scalar
    obtain ⟨-, -, u, d₁, u', asked, ordered⟩ := gives_planScalar h
    rw [gives_orderArguments_none ordered none]
    exact gives_project_order asked
  · obtain ⟨-, -, -, next, target, fields, id, d₁, d₂, join, planned, asked, -⟩ := association
    rw [gives_projectId_order asked, gives_planFields_order planned below]
    exact (keepsColumns_join _ _ _ _ _ _ _ _ join).2

/-- Fields without order arguments add no sort keys. -/
theorem gives_planFields_order {s : QuerySchema} {vars : Variables} {e : EntityType} {a : String}
    {p : List String} {fs : List Document.Field} {gs : List SelectedField} {d d' : Draft}
    (h : Gives (planFields s vars e a p fs) d gs d')
    (unordered : Document.Field.AllThroughout (·.Unordered) fs) : d'.order = d.order := by
  cases fs with
  | nil =>
    obtain ⟨-, rfl⟩ := gives_pure.1 h
    rfl
  | cons f fs =>
    obtain ⟨g, gs, d₁, rfl, first, others⟩ := planFields_cons h
    rw [gives_planFields_order others unordered.2, gives_planField_order first unordered.1]

end

end Planner

/-! ### The plan of a root field -/

namespace Planning

/-- The condition of a query says of rows what the filter means, in every
binding that has the rows chosen for the paths of the filter; without a filter
there is no condition. -/
def Expresses (s : QuerySchema) (root : EntityType) (vars : Variables) (q : Query) :
    Option Filter → Option Expr → Prop
  | none, none => True
  | some f, some e =>
    (∀ leaf ∈ f.leaves, ∃ a, Joins.aliasOf? q.joins leaf.path.dropLast = some a) ∧
      ∀ binding choice,
        (∀ leaf ∈ f.leaves, Joins.AgreesAt q.joins binding choice leaf.path.dropLast) →
        eval q.parameters binding e = .ok (Predicate.meaning s root vars choice f).toJson
  | _, _ => False

/-- The plan of a root field: its entity, its one selection, the selected
fields, and a query of the right shape. -/
structure PlanOf (s : QuerySchema) (named : String → Prop) (vars : Variables)
    (field : Document.Field) (plan : RootPlan) (entity : EntityType) (select : Document.Field)
    (gs : List SelectedField) : Prop where
  root : s.root? field.name = some entity
  selects : field.selection = [select]
  selection : plan.selection = ⟨entity.rootName, field.responseKey, select.responseKey,
    .mk entity.name [] rootAlias entity.idField.name gs⟩
  filter : filterOf vars field = .ok plan.filter
  table : plan.query.table = entity.descriptor.qualifiedTable
  tableAlias : plan.query.tableAlias = rootAlias
  limit : plan.query.limit = none
  unordered : field.Throughout (·.Unordered) → plan.query.order = []
  joins : Joins.Planned s entity plan.query.joins
  columns : ∀ c ∈ plan.query.columns, c.Reads s entity named plan.query.joins
  distinct : (plan.query.columns.map (·.name)).Nodup
  order : ∀ k ∈ plan.query.order, k.Reads s entity plan.query.joins
  id : Dotless entity.idField.name →
    ⟨.column rootAlias entity.idColumn, entity.idField.name⟩ ∈ plan.query.columns
  mirrors : (∀ n, named n → Dotless n) → Selection.Mirrors s plan.query.joins
    plan.query.columns entity [] select.selection gs
  parameters : Parameters.Sequential plan.query.parameters
  condition : Expresses s entity vars plan.query plan.filter plan.query.filter
  compiled : ∃ d₁ d₂, Gives (compileFilter s entity vars plan.filter) d₁ plan.query.filter d₂ ∧
    Joins.Planned s entity d₁.joins ∧ d₁.parameters = [] ∧
    d₂.joins = plan.query.joins ∧ d₂.parameters = plan.query.parameters

/-- A selection that is found is the only field. -/
theorem findSelect_eq_some {rootName : String} {found : Option Document.Field}
    {fields : List Document.Field} {select : Document.Field}
    (h : Selection.findSelect rootName found fields = .ok (some select)) :
    (found = none ∧ fields = [select]) ∨ (found = some select ∧ fields = []) := by
  -- What was found so far is carried along; a second selection would be an error.
  induction fields generalizing found with
  | nil =>
    cases h
    exact .inr ⟨rfl, rfl⟩
  | cons f rest ih =>
    simp only [Selection.findSelect] at h
    split at h
    · cases h
    split at h
    · cases h
    · next first =>
      rcases ih h with ⟨none, -⟩ | ⟨e, rfl⟩
      · cases none
      · cases e
        exact .inl ⟨by simpa using first, rfl⟩

/-- Planning a root field is planning its selection and then its filter, on
one draft. -/
theorem planRootField_eq_ok {s : QuerySchema} {vars : Variables} {field : Document.Field}
    {plan : RootPlan} (h : planRootField s vars field = .ok plan) :
    ∃ entity d condition, s.root? field.name = some entity ∧
      Gives (planParts s vars entity field) Draft.empty (plan.selection, plan.filter, condition)
        d ∧ plan.query = finish entity d condition := by
  unfold planRootField at h
  split at h
  case h_2 => cases h
  next entity root =>
  dsimp only at h
  split at h
  · obtain ⟨_, h', -⟩ := Outcome.bind_eq_ok.1 h
    cases h'
  split at h
  · next selection filter condition d run =>
    cases h
    exact ⟨entity, d, condition, root, run, rfl⟩
  · cases h

/-- The parts of a root field: the selection comes first, then the filter. -/
theorem gives_planParts {s : QuerySchema} {vars : Variables} {entity : EntityType}
    {field : Document.Field} {selection : RootSelection} {filter : Option Filter}
    {condition : Option Expr} {d d' : Draft} :
    Gives (planParts s vars entity field) d (selection, filter, condition) d' ↔
      ∃ d₁, Gives (Selection.planRoot s vars entity field) d selection d₁ ∧
        filterOf vars field = .ok filter ∧
        Gives (compileFilter s entity vars filter) d₁ condition d' := by
  constructor
  · intro h
    obtain ⟨selection', d₁, selected, h⟩ := gives_bind.1 h
    obtain ⟨filter', d₂, step, h⟩ := gives_bind.1 h
    obtain ⟨filtered, rfl⟩ := gives_lift.1 step
    obtain ⟨condition', d₃, compiled, h⟩ := gives_bind.1 h
    obtain ⟨e, rfl⟩ := gives_pure.1 h
    obtain ⟨rfl, rfl, rfl⟩ : selection' = selection ∧ filter' = filter ∧
        condition' = condition := by simpa using e
    exact ⟨d₁, selected, filtered, compiled⟩
  · rintro ⟨d₁, selected, filtered, compiled⟩
    refine gives_bind.2 ⟨selection, d₁, selected, ?_⟩
    refine gives_bind.2 ⟨filter, d₁, gives_lift.2 ⟨filtered, rfl⟩, ?_⟩
    exact gives_bind.2 ⟨condition, d', compiled, gives_pure.2 ⟨rfl, rfl⟩⟩

/-- The selection of a root field: the requested fields come first, then the
identifier of the root. -/
theorem gives_planRoot {s : QuerySchema} {vars : Variables} {entity : EntityType}
    {field : Document.Field} {selection : RootSelection} {d d' : Draft}
    (h : Gives (Selection.planRoot s vars entity field) d selection d') :
    ∃ select gs id d₁, field.selection = [select] ∧
      Gives (Selection.planFields s vars entity rootAlias [] select.selection) d gs d₁ ∧
      Gives (Selection.projectId entity rootAlias []) d₁ id d' ∧
      selection = ⟨entity.rootName, field.responseKey, select.responseKey,
        .mk entity.name [] rootAlias id gs⟩ := by
  simp only [Selection.planRoot] at h
  obtain ⟨found, d₁, step, h⟩ := gives_bind.1 h
  obtain ⟨found, rfl⟩ := gives_lift.1 step
  split at h
  case h_2 => exact absurd h gives_throw
  next select =>
  split at h
  · obtain ⟨_, d₁, h', -⟩ := gives_bind.1 h
    exact absurd h' gives_throw
  · obtain ⟨node, d₁, planned, h⟩ := gives_bind.1 h
    obtain ⟨rfl, rfl⟩ := gives_pure.1 h
    obtain ⟨gs, d₂, fields, planned⟩ := gives_bind.1 planned
    obtain ⟨id, d₃, asked, planned⟩ := gives_bind.1 planned
    obtain ⟨rfl, rfl⟩ := gives_pure.1 planned
    rcases findSelect_eq_some found with ⟨-, only⟩ | ⟨none, -⟩
    · exact ⟨select, gs, id, d₂, only, fields, asked, rfl⟩
    · cases none

/-- What the selection of a root field leaves in the draft. -/
structure Selected (s : QuerySchema) (named : String → Prop) (entity : EntityType)
    (select : Document.Field) (gs : List SelectedField) (d : Draft) : Prop where
  planned : d.Planned s entity named
  id : Dotless entity.idField.name →
    ⟨.column rootAlias entity.idColumn, entity.idField.name⟩ ∈ d.columns
  mirrors : (∀ n, named n → Dotless n) → ∀ joins columns, d.joins <+: joins →
    d.columns <+: columns → Selection.Mirrors s joins columns entity [] select.selection gs
  unordered : select.Throughout (·.Unordered) → d.order = []
  unbound : d.parameters = []

/-- The selection of a root field is planned below it, and the identifier of
the root after it. -/
theorem selected_of_planRoot {s : QuerySchema} {named : String → Prop} {vars : Variables}
    {entity : EntityType} {field : Document.Field} {selection : RootSelection} {d : Draft}
    (h : Gives (Selection.planRoot s vars entity field) Draft.empty selection d)
    (hr : entity ∈ s.entities) (identified : s.Identified named)
    (names : Document.Field.AllThroughout (·.Named named) field.selection) :
    ∃ select gs, field.selection = [select] ∧
      selection = ⟨entity.rootName, field.responseKey, select.responseKey,
        .mk entity.name [] rootAlias entity.idField.name gs⟩ ∧
      Selected s named entity select gs d := by
  have unbound := Keeps.planRoot cumulative_keepsParameters keepsParameters_join
    keepsParameters_project keepsParameters_orderBy _ _ _ _ _ _ _ h
  obtain ⟨select, gs, id, d₁, only, fields, asked, rfl⟩ := gives_planRoot h
  rw [only] at names
  obtain ⟨planned₁, mirrors⟩ := fields.planFields identified hr planned_empty
    (s.entityAt_nil entity) (Joins.aliasOf?_nil _) (List.forall_mem_nil _) names.1.below
  have idNamed : ∀ n ∈ [entity.idField.name], named n :=
    List.forall_mem_singleton.2 (identified.names entity hr)
  obtain ⟨rfl, sameJoins, planned₂, column⟩ := asked.projectId planned₁ (s.entityAt_nil entity)
    (identified.field entity hr) (Joins.aliasOf?_nil _) idNamed
  have grown := Keeps.projectId cumulative_grows grows_project _ _ _ _ _ _ asked
  refine ⟨select, gs, only, rfl, ?_⟩
  -- The identifier is asked for last, and adds its column to those of the fields.
  exact {
    planned := planned₂
    id := fun dotless => column fun q g _ same => Selection.columnName_dotless dotless same
    mirrors := fun dotless joins columns hj hc =>
      mirrors dotless joins columns (grown.joins.trans hj) (grown.columns.trans hc)
    unordered := by
      intro unordered
      rw [gives_projectId_order asked, gives_planFields_order fields unordered.below]
      rfl
    unbound := unbound }

/-- Compiling the filter of a root field expresses it. -/
theorem expresses_of_compileFilter {s : QuerySchema} {entity : EntityType} {vars : Variables}
    {filter : Option Filter} {condition : Option Expr} {d d' : Draft}
    (h : Gives (compileFilter s entity vars filter) d condition d')
    (hd : d.parameters.Sequential) :
    Expresses s entity vars (finish entity d' condition) filter condition ∧
      (Joins.Planned s entity d.joins → Joins.Planned s entity d'.joins) := by
  cases filter with
  | none =>
    obtain ⟨rfl, rfl⟩ := gives_pure.1 h
    exact ⟨trivial, fun planned => planned⟩
  | some f =>
    obtain ⟨e, d₁, compiled, h⟩ := gives_bind.1 h
    obtain ⟨rfl, rfl⟩ := gives_pure.1 h
    obtain ⟨joined, planned⟩ := Predicate.planned_compile compiled
    exact ⟨⟨joined, fun binding choice agrees => Predicate.eval_compile compiled hd agrees⟩,
      planned⟩

/-- **The plan of a root field has the shape of a plan.** -/
theorem planOf {s : QuerySchema} {named : String → Prop} {vars : Variables}
    {field : Document.Field} {plan : RootPlan} (h : planRootField s vars field = .ok plan)
    (identified : s.Identified named)
    (names : Document.Field.AllThroughout (·.Named named) field.selection) :
    ∃ entity select gs, PlanOf s named vars field plan entity select gs := by
  obtain ⟨entity, d, condition, root, run, query⟩ := planRootField_eq_ok h
  obtain ⟨d₁, selected, filtered, compiled⟩ := gives_planParts.1 run
  obtain ⟨select, gs, only, selection, left⟩ :=
    selected_of_planRoot selected (QuerySchema.mem_of_root? root) identified names
  have sequential : d₁.parameters.Sequential := by
    rw [left.unbound]
    rfl
  -- The filter adds joins and values, and leaves the rest alone.
  have grown := Keeps.compileFilter cumulative_grows grows_bindValue grows_join _ _ _ _ _ _ _
    compiled
  have sequential' := Keeps.compileFilter cumulative_sequential sequential_bindValue
    sequential_join _ _ _ _ _ _ _ compiled sequential
  have kept := Keeps.compileFilter cumulative_keepsColumns keepsColumns_bindValue
    keepsColumns_join _ _ _ _ _ _ _ compiled
  obtain ⟨expresses, keepsJoins⟩ := expresses_of_compileFilter compiled sequential
  refine ⟨entity, select, gs, ?_⟩
  exact {
    root := root
    selects := only
    selection := selection
    filter := filtered
    table := by rw [query]; rfl
    tableAlias := by rw [query]; rfl
    limit := by rw [query]; rfl
    unordered := by
      rw [query]
      intro unordered
      have below := unordered.below
      rw [only] at below
      show d.order = []
      rw [kept.2, left.unordered below.1]
    joins := by rw [query]; exact keepsJoins left.planned.joins
    columns := by
      rw [query]
      intro c hc
      have hc : c ∈ d.columns := hc
      rw [kept.1] at hc
      exact (left.planned.columns c hc).mono grown.joins
    distinct := by
      rw [query]
      show (d.columns.map (·.name)).Nodup
      rw [kept.1]
      exact left.planned.distinct
    order := by
      rw [query]
      intro k hk
      have hk : k ∈ d.order := hk
      rw [kept.2] at hk
      exact (left.planned.order k hk).mono grown.joins
    id := by
      rw [query]
      intro dotless
      show _ ∈ d.columns
      rw [kept.1]
      exact left.id dotless
    mirrors := by
      rw [query]
      intro dotless
      exact left.mirrors dotless _ _ grown.joins grown.columns
    parameters := by rw [query]; exact sequential'
    condition := by rw [query]; exact expresses
    compiled := by
      rw [query]
      exact ⟨_, _, compiled, left.planned.joins, left.unbound, rfl, rfl⟩ }

/-- A plan over a schema that was built has the shape of a plan, whatever the
names in it are. -/
theorem planOf_of_build {name : String} {descriptors : List EntityDescriptor}
    {registry : ScalarRegistry} {s : QuerySchema}
    (built : QuerySchema.build name descriptors registry = .ok s) {vars : Variables}
    {field : Document.Field} {plan : RootPlan} {entity : EntityType}
    (h : planRootField s vars field = .ok plan) (root : s.root? field.name = some entity) :
    ∃ select gs, PlanOf s (fun _ => True) vars field plan entity select gs := by
  have identified : s.Identified fun _ => True :=
    ⟨QuerySchema.identified_of_build built, fun _ _ => trivial⟩
  have names := Document.Field.allThroughout_of_forall (P := (·.Named fun _ => True))
    (fun _ => trivial) field.selection
  obtain ⟨entity', select, gs, p⟩ := planOf h identified names
  obtain rfl : entity = entity' := Option.some.inj (root.symm.trans p.root)
  exact ⟨select, gs, p⟩

end Planning

end EntityQuery
