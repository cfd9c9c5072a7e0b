/-
EntityQuery/Proofs/WellFormed.lean

Planned queries are well formed.

While a condition is compiled, the names that it reads are those that are
bound, in the same order (`Draft.Writes`): every value is bound for the one
place where the expression for it stands.  One lemma for each form of
expression carries this from bound values to comparisons, and the tree of the
filter carries it to the whole (`writes_compile`).  The columns that are read
belong to the root or to a join, since a path is joined before a field at its
end is read.

So a planned query is scoped, and evaluating it on a store fails only if the
table of its root is missing.  It may have no answer for another reason: if it
asks for an order, the store may give up sorting, on more than twenty bindings
whose sort keys have no consistent order (`Planning.wellFormed_of_plan`).
Identifiers that are numbers and texts are such keys (`Sample.not_answered`).
-/
import EntityQuery.Proofs.Joined
import EntityQuery.Proofs.Scope
import EntityQuery.Proofs.Where

namespace EntityQuery

open Planner

/-! ### What an expression adds to a draft -/

/-- The names of the expression are those that were bound on the way, in
order, and the aliases that it reads are in scope. -/
structure Draft.Writes (d d' : Draft) (scope : List String) (e : Expr) : Prop where
  names : Keyed.keys d'.parameters = Keyed.keys d.parameters ++ e.parameters
  aliases : ∀ a ∈ e.aliases, a ∈ scope
  applied : e.Applied

/-- The same of several expressions, from left to right. -/
structure Draft.WritesAll (d d' : Draft) (scope : List String) (es : List Expr) : Prop where
  names : Keyed.keys d'.parameters = Keyed.keys d.parameters ++ Expr.parametersOf es
  aliases : ∀ a ∈ Expr.aliasesOf es, a ∈ scope
  applied : Expr.AllApplied es

namespace Draft

variable {d d₁ d₂ : Draft} {scope : List String} {e l r : Expr} {es : List Expr}

theorem WritesAll.nil (d : Draft) (scope : List String) : d.WritesAll d scope [] :=
  ⟨(List.append_nil _).symm, List.forall_mem_nil _, trivial⟩

theorem WritesAll.cons (h : d.Writes d₁ scope e) (hs : d₁.WritesAll d₂ scope es) :
    d.WritesAll d₂ scope (e :: es) :=
  ⟨by rw [hs.names, h.names, List.append_assoc]; rfl,
    List.forall_mem_append.2 ⟨h.aliases, hs.aliases⟩, h.applied, hs.applied⟩

theorem WritesAll.mono {more : List String} (h : d.WritesAll d₁ scope es)
    (le : ∀ a ∈ scope, a ∈ more) : d.WritesAll d₁ more es :=
  ⟨h.names, fun a ha => le a (h.aliases a ha), h.applied⟩

theorem Writes.mono {more : List String} (h : d.Writes d₁ scope e)
    (le : ∀ a ∈ scope, a ∈ more) : d.Writes d₁ more e :=
  ⟨h.names, fun a ha => le a (h.aliases a ha), h.applied⟩

theorem Writes.literal (d : Draft) (scope : List String) (value : Literal) :
    d.Writes d scope (.literal value) :=
  ⟨(List.append_nil _).symm, List.forall_mem_nil _, trivial⟩

theorem Writes.column (d : Draft) {a : String} (ha : a ∈ scope) (name : String) :
    d.Writes d scope (.column a name) :=
  ⟨(List.append_nil _).symm, List.forall_mem_singleton.2 ha, trivial⟩

theorem Writes.list (h : d.WritesAll d₁ scope es) : d.Writes d₁ scope (.list es) :=
  ⟨h.names, h.aliases, h.applied⟩

theorem Writes.toText (h : d.Writes d₁ scope e) : d.Writes d₁ scope (.toText e) :=
  ⟨h.names, h.aliases, h.applied⟩

theorem Writes.locate (hl : d.Writes d₁ scope l) (hr : d₁.Writes d₂ scope r) :
    d.Writes d₂ scope (.locate l r) :=
  ⟨by rw [hr.names, hl.names, List.append_assoc]; rfl,
    List.forall_mem_append.2 ⟨hl.aliases, hr.aliases⟩, hl.applied, hr.applied⟩

theorem Writes.sameDocument (hl : d.Writes d₁ scope l) (hr : d₁.Writes d₂ scope r) :
    d.Writes d₂ scope (.sameDocument l r) :=
  ⟨by rw [hr.names, hl.names, List.append_assoc]; rfl,
    List.forall_mem_append.2 ⟨hl.aliases, hr.aliases⟩, hl.applied, hr.applied⟩

theorem Writes.apply {operator : Operator} (h : d.WritesAll d₁ scope es)
    (takes : operator.Takes es) : d.Writes d₁ scope (.apply operator es) :=
  ⟨h.names, h.aliases, takes, h.applied⟩

theorem Writes.binary {operator : Operator} (hl : d.Writes d₁ scope l)
    (hr : d₁.Writes d₂ scope r) (takes : operator.Takes [l, r]) :
    d.Writes d₂ scope (.binary operator l r) :=
  .apply (.cons hl (.cons hr (.nil d₂ scope))) takes

/-- A single condition stands for itself, and no condition for a constant. -/
theorem WritesAll.allOf (h : d.WritesAll d₁ scope es) : d.Writes d₁ scope (.allOf es) := by
  match es with
  | [] => exact ⟨h.names, h.aliases, trivial⟩
  | [e] =>
    exact ⟨by rw [h.names, Expr.parametersOf, Expr.parametersOf, List.append_nil]; rfl,
      fun a ha => h.aliases a (List.mem_append_left _ ha), h.applied.1⟩
  | e₁ :: e₂ :: es => exact .apply h trivial

theorem WritesAll.anyOf (h : d.WritesAll d₁ scope es) : d.Writes d₁ scope (.anyOf es) := by
  match es with
  | [] => exact ⟨h.names, h.aliases, trivial⟩
  | [e] =>
    exact ⟨by rw [h.names, Expr.parametersOf, Expr.parametersOf, List.append_nil]; rfl,
      fun a ha => h.aliases a (List.mem_append_left _ ha), h.applied.1⟩
  | e₁ :: e₂ :: es => exact .apply h trivial

end Draft

/-! ### Conditions of fields -/

section Conditions

open Comparison

variable {d d' : Draft} {e : Expr} {scope : List String} {b : ScalarBinding}
variable {tableAlias name : String} (inScope : tableAlias ∈ scope)

theorem writes_bindValue {value : Json} (h : Gives (bindValue value) d e d')
    (scope : List String) : d.Writes d' scope e := by
  obtain ⟨rfl, rfl⟩ := gives_bindValue.1 h
  exact ⟨by simp [Keyed.keys, Expr.parameters], List.forall_mem_nil _, trivial⟩

theorem writes_bindValues {values : List Json} {es : List Expr}
    (h : Gives (bindValues values) d es d') (scope : List String) : d.WritesAll d' scope es := by
  simp only [bindValues] at h
  induction values generalizing d es with
  | nil =>
    obtain ⟨rfl, rfl⟩ := gives_pure.1 h
    exact .nil d scope
  | cons value values ih =>
    rw [List.mapM_cons] at h
    obtain ⟨e, d₁, bound, h⟩ := gives_bind.1 h
    obtain ⟨es, d₂, more, h⟩ := gives_bind.1 h
    obtain ⟨rfl, rfl⟩ := gives_pure.1 h
    exact .cons (writes_bindValue bound scope) (ih more)

include inScope

theorem writes_storedColumn (d : Draft) :
    d.Writes d scope (storedColumn b (.column tableAlias name)) := by
  simp only [storedColumn]
  cases b.storage with
  | native => exact .column d inScope name
  | encoded => exact .toText (.column d inScope name)

theorem writes_nullCheck (d : Draft) (isNull : Bool) :
    d.Writes d scope (nullCheck (.column tableAlias name) isNull) := by
  refine .apply (.cons (.column d inScope name) (.nil d scope)) ?_
  cases isNull <;> exact ⟨_, rfl⟩

theorem writes_compareWith {operator : Operator} {value : Json}
    (h : Gives (compareWith operator b (.column tableAlias name) value) d e d')
    (takes : ∀ l r, operator.Takes [l, r]) :
    d.Writes d' scope e := by
  obtain ⟨bound, d₁, step, h⟩ := gives_bind.1 h
  obtain ⟨rfl, rfl⟩ := gives_pure.1 h
  exact .binary (writes_storedColumn inScope d) (writes_bindValue step scope) (takes _ _)

theorem writes_membership {values : List Json} {negated : Bool}
    (h : Gives (Comparison.membership b (.column tableAlias name) values negated) d e d') :
    d.Writes d' scope e := by
  obtain ⟨candidates, d₁, step, h⟩ := gives_bind.1 h
  obtain ⟨rfl, rfl⟩ := gives_pure.1 h
  refine .binary (writes_storedColumn inScope d) (.list (writes_bindValues step scope)) ?_
  cases negated <;> exact ⟨_, _, rfl⟩

theorem writes_translate {operator : FilterOperator} {value : Json}
    (h : Gives (Comparison.translate b (.column tableAlias name) operator value) d e d') :
    d.Writes d' scope e := by
  -- As the operators are translated: nullness, a comparison, or one of the searches.
  cases operator <;> simp only [Comparison.translate] at h
  case eq | ne =>
    split at h
    · obtain ⟨rfl, rfl⟩ := gives_pure.1 h
      exact writes_nullCheck inScope d _
    · exact writes_compareWith inScope h fun l r => ⟨l, r, rfl⟩
  case gt | ge | lt | le | like => exact writes_compareWith inScope h fun l r => ⟨l, r, rfl⟩
  case locate =>
    obtain ⟨needle, d₁, step, h⟩ := gives_bind.1 h
    obtain ⟨rfl, rfl⟩ := gives_pure.1 h
    have place := Draft.Writes.locate (writes_bindValue step scope)
      (.toText (.column d₁ inScope name))
    exact .binary place (.literal d₁ scope _) ⟨_, _, rfl⟩
  case contains =>
    obtain ⟨bound, d₁, step, h⟩ := gives_bind.1 h
    obtain ⟨rfl, rfl⟩ := gives_pure.1 h
    exact .sameDocument (.toText (.column d inScope name)) (writes_bindValue step scope)
  case oneOf | noneOf => exact writes_membership inScope h
  case isNull | notNull =>
    obtain ⟨rfl, rfl⟩ := gives_pure.1 h
    exact writes_nullCheck inScope d _

/-- The condition of a field names the values that were bound for it. -/
theorem writes_comparison {vars : Variables} {field : String} {operator : FilterOperator}
    {operand : Operand}
    (h : Gives (Predicate.comparison vars field (.column tableAlias name) b operator operand)
      d e d') : d.Writes d' scope e := by
  simp only [Predicate.comparison] at h
  split at h
  · obtain ⟨given, d₁, step, h⟩ := gives_bind.1 h
    obtain ⟨-, rfl⟩ := gives_lift.1 step
    obtain ⟨rfl, rfl⟩ := gives_pure.1 h
    exact writes_nullCheck inScope d _
  split at h
  · obtain ⟨values, d₁, step, h⟩ := gives_bind.1 h
    obtain ⟨-, rfl⟩ := gives_lift.1 step
    exact writes_membership inScope h
  · obtain ⟨value, d₁, step, h⟩ := gives_bind.1 h
    obtain ⟨-, rfl⟩ := gives_lift.1 step
    exact writes_translate inScope h

end Conditions

/-! ### Conditions of filters -/

/-- The aliases of a draft: that of the root, and those of its joins. -/
def Draft.aliases (d : Draft) : List String := rootAlias :: d.joins.map (·.tableAlias)

theorem Draft.aliases_mono {d d' : Draft} (h : d.Grows d') : ∀ a ∈ d.aliases, a ∈ d'.aliases := by
  intro a ha
  rcases List.mem_cons.1 ha with rfl | ha
  · exact List.mem_cons_self
  · obtain ⟨j, hj, rfl⟩ := List.mem_map.1 ha
    exact List.mem_cons_of_mem _ (List.mem_map_of_mem (h.joins.subset hj))

theorem Joins.mem_aliases_of_aliasOf? {joins : Joins} {path : List String} {a : String}
    (h : aliasOf? joins path = some a) : a ∈ rootAlias :: joins.map (·.tableAlias) := by
  rcases mem_of_aliasOf? h with rfl | ⟨j, hj, rfl⟩
  · exact List.mem_cons_self
  · exact List.mem_cons_of_mem _ (List.mem_map_of_mem hj)

section Filters

open Predicate

variable {s : QuerySchema} {root : EntityType} {vars : Variables}

theorem writes_compileLeaf {leaf : FilterLeaf} {d d' : Draft} {e : Expr}
    (h : Gives (compileLeaf s root vars leaf) d e d') : d.Writes d' d'.aliases e := by
  obtain ⟨between, name, last, field, b, op, a, d₁, -, -, -, -, -, joined, unbound, -,
    comparison⟩ := compileLeaf_cases h
  have joins : d'.joins = d₁.joins :=
    Keeps.comparison cumulative_keepsJoins keepsJoins_bindValue _ _ _ _ _ _ _ _ _ comparison
  have inScope : a ∈ d'.aliases := by
    rw [← joins] at joined
    exact Joins.mem_aliases_of_aliasOf? joined
  obtain ⟨names, aliases, applied⟩ := writes_comparison inScope comparison
  exact ⟨by rw [names, unbound], aliases, applied⟩

mutual

/-- The condition of a filter names the values that were bound for it, in
order. -/
theorem writes_compile {f : Filter} {d d' : Draft} {e : Expr}
    (h : Gives (compile s root vars f) d e d') : d.Writes d' d'.aliases e := by
  cases f with
  | leaf condition =>
    rw [compile] at h
    exact writes_compileLeaf h
  | and children =>
    rw [compile] at h
    obtain ⟨es, d₁, parts, h⟩ := gives_bind.1 h
    obtain ⟨rfl, rfl⟩ := gives_pure.1 h
    exact (writes_compileAll parts).allOf
  | or children =>
    rw [compile] at h
    obtain ⟨es, d₁, parts, h⟩ := gives_bind.1 h
    obtain ⟨rfl, rfl⟩ := gives_pure.1 h
    exact (writes_compileAll parts).anyOf
  | not child =>
    rw [compile] at h
    obtain ⟨e, d₁, part, h⟩ := gives_bind.1 h
    obtain ⟨rfl, rfl⟩ := gives_pure.1 h
    exact .apply (.cons (writes_compile part) (.nil d₁ _)) ⟨_, rfl⟩

theorem writes_compileAll {fs : List Filter} {d d' : Draft} {es : List Expr}
    (h : Gives (compileAll s root vars fs) d es d') : d.WritesAll d' d'.aliases es := by
  cases fs with
  | nil =>
    obtain ⟨rfl, rfl⟩ := gives_pure.1 h
    exact .nil d _
  | cons f fs =>
    rw [compileAll] at h
    obtain ⟨e, d₁, first, h⟩ := gives_bind.1 h
    obtain ⟨es, d₂, others, h⟩ := gives_bind.1 h
    obtain ⟨rfl, rfl⟩ := gives_pure.1 h
    have grown := Keeps.compileAll cumulative_grows grows_bindValue grows_join _ _ _ _ _ _ _ others
    exact .cons ((writes_compile first).mono (Draft.aliases_mono grown)) (writes_compileAll others)

end

end Filters

/-! ### Joins -/

namespace Joins

variable {s : QuerySchema} {root : EntityType}

/-- The condition of a planned join reads its own table and that of the path
before it. -/
theorem Follows.condition {before : Joins} {j : Join} (h : Follows s root before j) :
    ∃ parent, aliasOf? before j.path.dropLast = some parent ∧
      (∀ a ∈ j.condition.aliases, a = j.tableAlias ∨ a = parent) ∧
      j.condition.parameters = [] ∧ j.condition.Applied := by
  cases h with
  | @mk p a parent A left right association joined sides =>
  refine ⟨parent, by rw [List.dropLast_concat]; exact joined, ?_⟩
  -- The two sides of a join are columns of its parent and of itself.
  simp only [sides?] at sides
  split at sides
  · cases sides
    refine ⟨?_, rfl, ⟨_, _, rfl⟩, trivial, trivial, trivial⟩
    intro b hb
    simp only [Join.condition, Expr.aliases, Expr.aliasesOf, List.append_nil, List.mem_append,
      List.mem_singleton] at hb
    exact hb.symm
  · cases sides
    refine ⟨?_, rfl, ⟨_, _, rfl⟩, trivial, trivial, trivial⟩
    intro b hb
    simp only [Join.condition, Expr.aliases, Expr.aliasesOf, List.append_nil, List.mem_append,
      List.mem_singleton] at hb
    exact hb
  · cases sides

/-- The joins of a plan are scoped, each by those before it. -/
theorem Planned.scoped {before joins : Joins} (h : Planned s root (before ++ joins))
    (names : List String) :
    Joins.Scoped names (rootAlias :: before.map (·.tableAlias)) joins := by
  -- Along the joins: each sees the root and those before it.
  induction joins generalizing before with
  | nil => trivial
  | cons j joins ih =>
    obtain ⟨-, -, follows⟩ := h.follows rfl
    obtain ⟨parent, joined, reads, unnamed, applied⟩ := follows.condition
    have longer : (rootAlias :: before.map (·.tableAlias)) ++ [j.tableAlias] =
        rootAlias :: (before ++ [j]).map (·.tableAlias) := by simp
    refine ⟨⟨fun a ha => ?_, ?_, applied⟩, ?_⟩
    · rcases reads a ha with rfl | rfl
      · exact List.mem_append_right _ List.mem_cons_self
      · exact List.mem_append_left _ (mem_aliases_of_aliasOf? joined)
    · rw [unnamed]
      exact List.forall_mem_nil _
    · rw [longer]
      refine ih ?_
      rw [← List.append_cons]
      exact h

/-- The path before a planned join is that of the root, or is joined
earlier. -/
theorem Follows.earlier {before : Joins} {j : Join} (h : Follows s root before j) :
    j.path.dropLast = [] ∨ j.path.dropLast ∈ before.map (·.path) := by
  obtain ⟨a, joined⟩ := h.parent
  refine or_iff_not_imp_left.2 fun inside => ?_
  obtain ⟨parent, mem, path⟩ := exists_join_of_aliasOf? joined inside
  rw [← path]
  exact List.mem_map_of_mem mem

end Joins

/-! ### Planned queries -/

/-- A query that joins the paths it uses, reads the tables it joins, and names
the values it is given. -/
structure Query.WellFormed (q : Query) (uses : List String → Prop) : Prop where
  root : q.tableAlias = rootAlias
  paths : ∀ path, path ∈ q.joins.map (·.path) ↔ uses path
  once : (q.joins.map (·.path)).Nodup
  /-- A path is joined after the path before it. -/
  parents : ∀ before j after, q.joins = before ++ j :: after →
    j.path.dropLast = [] ∨ j.path.dropLast ∈ before.map (·.path)
  aliases : q.joins.map (·.tableAlias) = (List.range q.joins.length).map Joins.aliasAt
  conditions : ∀ j ∈ q.joins, ∃ parent, Joins.aliasOf? q.joins j.path.dropLast = some parent ∧
    ∀ a ∈ j.condition.aliases, a = j.tableAlias ∨ a = parent
  columns : ∀ c ∈ q.columns, ∀ a ∈ c.expr.aliases, a ∈ q.aliases
  filter : ∀ e, q.filter = some e → ∀ a ∈ e.aliases, a ∈ q.aliases
  order : ∀ k ∈ q.order, ∀ a ∈ k.expr.aliases, a ∈ q.aliases
  /-- The condition names the values in the order of the numbers. -/
  names : q.filter.elim [] Expr.parameters =
    (List.range q.parameters.length).map Parameters.nameAt
  parameters : Keyed.keys q.parameters = (List.range q.parameters.length).map Parameters.nameAt

namespace Planning

variable {s : QuerySchema} {named : String → Prop} {vars : Variables} {field : Document.Field}
variable {plan : RootPlan} {entity : EntityType} {select : Document.Field}
variable {gs : List SelectedField}

theorem PlanOf.aliases (p : PlanOf s named vars field plan entity select gs) :
    plan.query.aliases = rootAlias :: plan.query.joins.map (·.tableAlias) := by
  rw [← p.tableAlias]
  rfl

theorem PlanOf.mem_aliases (p : PlanOf s named vars field plan entity select gs)
    {path : List String} {a : String} (joined : Joins.aliasOf? plan.query.joins path = some a) :
    a ∈ plan.query.aliases := by
  rw [p.aliases]
  exact Joins.mem_aliases_of_aliasOf? joined

/-- The condition of a plan names the values of the plan, in order. -/
theorem PlanOf.writes (p : PlanOf s named vars field plan entity select gs) :
    Keyed.keys plan.query.parameters = plan.query.filter.elim [] Expr.parameters ∧
      ∀ e, plan.query.filter = some e → (∀ a ∈ e.aliases, a ∈ plan.query.aliases) ∧ e.Applied := by
  obtain ⟨d₁, d₂, compiled, -, unbound, joins, parameters⟩ := p.compiled
  cases filter : plan.filter with
  | none =>
    rw [filter] at compiled
    obtain ⟨none, rfl⟩ := gives_pure.1 compiled
    rw [← parameters, unbound, ← none]
    exact ⟨rfl, fun e h => absurd h.symm (Option.some_ne_none e)⟩
  | some f =>
    rw [filter] at compiled
    obtain ⟨e, d, condition, result⟩ := gives_bind.1 compiled
    obtain ⟨only, rfl⟩ := gives_pure.1 result
    obtain ⟨names, aliases, applied⟩ := writes_compile condition
    rw [unbound] at names
    rw [← only, ← parameters]
    refine ⟨names, ?_⟩
    rintro _ ⟨⟩
    refine ⟨fun a ha => ?_, applied⟩
    rw [p.aliases, ← joins]
    exact aliases a ha

/-- Every expression of a planned query is scoped. -/
theorem PlanOf.scoped (p : PlanOf s named vars field plan entity select gs) :
    plan.query.Scoped := by
  obtain ⟨names, filter⟩ := p.writes
  refine ⟨?_, ?_, ?_, ?_⟩
  · have planned : Joins.Planned s entity ([] ++ plan.query.joins) := p.joins
    rw [p.tableAlias]
    exact planned.scoped _
  · intro c hc
    obtain ⟨-, -, joined, -⟩ := p.columns c hc
    exact ⟨List.forall_mem_singleton.2 (p.mem_aliases joined), List.forall_mem_nil _, trivial⟩
  · intro e condition
    obtain ⟨aliases, applied⟩ := filter e condition
    rw [names, condition]
    exact ⟨aliases, fun n hn => hn, applied⟩
  · intro k hk
    obtain ⟨-, -, joined⟩ := p.order k hk
    exact ⟨List.forall_mem_singleton.2 (p.mem_aliases joined), List.forall_mem_nil _, trivial⟩

/-- A planned query is well formed, with the paths that the plan joins. -/
theorem PlanOf.wellFormed (p : PlanOf s named vars field plan entity select gs)
    {uses : List String → Prop}
    (paths : ∀ path, path ∈ plan.query.joins.map (·.path) ↔ uses path) :
    plan.query.WellFormed uses := by
  have closed := p.scoped
  exact {
    root := p.tableAlias
    paths := paths
    once := p.joins.numbered.paths
    parents := fun before j after split => (p.joins.follows split).2.2.earlier
    aliases := p.joins.numbered.aliases
    conditions := by
      intro j hj
      obtain ⟨before, after, split⟩ := List.append_of_mem hj
      obtain ⟨parent, joined, reads, -, -⟩ := (p.joins.follows split).2.2.condition
      exact ⟨parent, Joins.aliasOf?_mono ⟨_, split.symm⟩ joined, reads⟩
    columns := fun c hc => (closed.columns c hc).aliases
    filter := fun e he => (closed.filter e he).aliases
    order := fun k hk => (closed.order k hk).aliases
    names := p.writes.1.symm.trans p.parameters
    parameters := p.parameters }

/-- **Planned queries are well formed, so evaluating them never fails.**  The
query of a root field that can be planned joins the paths that its selection
and its filter use, each once and after the path before it; every expression
reads tables that are joined, and the condition names the values that are
given.  On any store the answer is rows, or that the table of the root is
missing.  There is none only where the query asks for an order and the sort
gives up on its keys: they are inconsistent, and more than twenty. -/
theorem wellFormed_of_plan [Store.Disorder] {name : String} {descriptors : List EntityDescriptor}
    {registry : ScalarRegistry} (built : QuerySchema.build name descriptors registry = .ok s)
    (planned : planRootField s vars field = .ok plan) :
    ∃ entity select, s.root? field.name = some entity ∧ field.selection = [select] ∧
      filterOf vars field = .ok plan.filter ∧
      plan.query.WellFormed (Uses select.selection plan.filter) ∧
      ∀ tables : Tables, (∃ rows, tables.run? plan.query = some (.ok rows)) ∨
        (Keyed.find? tables entity.descriptor.qualifiedTable = none ∧
          tables.run? plan.query =
            some (.error (.unknownTable entity.descriptor.qualifiedTable))) ∨
        (tables.run? plan.query = none ∧ plan.query.order ≠ [] ∧
          ∃ keyed, tables.sorts plan.query = .ok keyed ∧ Store.insertionLimit < keyed.length ∧
            ¬Store.Consistent (Tables.precedes plan.query.order) keyed) := by
  have identified : s.Identified fun _ => True :=
    ⟨QuerySchema.identified_of_build built, fun _ _ => trivial⟩
  obtain ⟨entity, select, gs, p⟩ :=
    planOf planned identified (Document.Field.allThroughout_of_forall (fun _ => trivial) _)
  obtain ⟨select', only, paths⟩ := joined_iff planned
  rw [p.selects] at only
  cases only
  refine ⟨entity, select, p.root, p.selects, p.filter, p.wellFormed paths, fun tables => ?_⟩
  -- The sort is the only step that may have no outcome, so that it is settled first.
  cases stuck : tables.givesUp plan.query with
  | true => exact .inr (.inr ⟨Tables.run?_eq_none.2 stuck, Tables.of_givesUp stuck⟩)
  | false =>
    -- Without its root table a query does not run; with it, all that it reads is there.
    cases found : Keyed.find? tables entity.descriptor.qualifiedTable with
    | none =>
      rw [← p.table] at found ⊢
      exact .inr (.inl ⟨rfl, Tables.run?_eq_some.2 ⟨stuck, Tables.run_unknown found⟩⟩)
    | some rows =>
      rw [← p.table] at found
      obtain ⟨result, run⟩ := Tables.run_total p.scoped found
      exact .inl ⟨result, Tables.run?_eq_some.2 ⟨stuck, run⟩⟩

end Planning

/-! ### In the small library -/

/-- The plan of the books of an author joins the author for the filter and,
once more below it, the books of that author.  It has rows on the tables of the
library, and on none the table of the books is missing. -/
theorem wellFormed_of_plan_library :
    ∃ plan, Planning.planRootField Sample.schema [] Sample.shelves = .ok plan ∧
      plan.query.joins.map (·.path) = [["author"], ["author", "books"]] ∧
      (plan.query.joins.map (·.path)).Nodup ∧
      Keyed.keys plan.query.parameters = [Parameters.nameAt 0] ∧
      (∃ rows, Sample.tables.run? plan.query = some (.ok rows) ∧ rows.length = 4) ∧
      Tables.empty.run? plan.query = some (.error (.unknownTable "books")) := by
  have planned : Planning.planRootField Sample.schema [] Sample.shelves = .ok _ := rfl
  obtain ⟨entity, select, root, -, -, wellFormed, runs⟩ :=
    Planning.wellFormed_of_plan Sample.schema_built planned
  cases root
  refine ⟨_, planned, rfl, wellFormed.once, wellFormed.parameters, ?_, ?_⟩
  · rcases runs Sample.tables with ⟨rows, run⟩ | ⟨unknown, -⟩ | ⟨-, ordered, -⟩
    · refine ⟨rows, run, ?_⟩
      cases run
      rfl
    · cases unknown
    · exact absurd rfl ordered
  · rcases runs Tables.empty with ⟨rows, run⟩ | ⟨-, run⟩ | ⟨-, ordered, -⟩
    · cases run
    · exact run
    · exact absurd rfl ordered

namespace Sample

/-- Identifiers of which all but one are numbers.  A text is neither less nor
greater than a number, as if they were equal. -/
def mixed : List Json :=
  [.ofInt 0, .ofInt 11, .string "x"] ++ [12, 2, 13, 3, 14, 4, 15, 5, 16, 6, 17, 7, 18, 8, 19, 9,
    20, 10].map .ofInt

/-- A table of books that have nothing but these. -/
def mixedBooks : Tables := [("books", mixed.map fun id => [("id", id)])]

/-- The identifiers of the books, in ascending order. -/
def inOrder : Document.Field :=
  .mk none "books" [] [.mk none "select" [] [.mk none "id" [("orderBy", .enum "ASC")] []]]

/-- There are too many to be inserted one after another, and they have no
consistent order, so the store gives up sorting them. -/
theorem not_answered :
    ∃ plan keyed, Planning.planRootField schema [] inOrder = .ok plan ∧
      mixedBooks.sorts plan.query = .ok keyed ∧ keyed.length = 21 ∧
      ¬Store.Consistent (Tables.precedes plan.query.order) keyed ∧
      mixedBooks.run? plan.query = none := by
  have planned : Planning.planRootField schema [] inOrder = .ok _ := rfl
  refine ⟨_, _, planned, rfl, rfl, ?_, ?_⟩
  · decide +kernel
  · rw [← Option.isNone_iff_eq_none]
    decide +kernel

end Sample

end EntityQuery
