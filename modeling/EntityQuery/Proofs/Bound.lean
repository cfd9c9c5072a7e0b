/-
EntityQuery/Proofs/Bound.lean

What planning binds to a query.

A filter gives a query its values.  Where every scalar is an ordinary one or
holds documents, what is bound is never a list and never a document as such:
an ordinary scalar lets through one value of its family, and a document is
bound as its text (`atomic_storedValue`).  The expression for it names the
column of the field and the new parameters, nothing else (`makes_comparison`).
Both pass from the leaves of a filter to the whole (`makes_compile`).
-/
import EntityQuery.Proofs.Plan
import EntityQuery.Proofs.Quoting
import EntityQuery.Proofs.Template

namespace EntityQuery

open Planner

/-! ### Values of standard scalars -/

/-- The scalar is bound from the start, or holds documents. -/
def ScalarBinding.Standard (b : ScalarBinding) : Prop :=
  b ∈ ordinaryBindings.map (·.2) ∨
    ∃ name description, b = .document name description ∨
      b = (ScalarBinding.document name description).withContainment

/-- The ordinary bindings keep values as they are and check them against their
kind. -/
theorem ordinary_plain : ∀ b ∈ ordinaryBindings.map (·.2),
    b.storage = .native ∧ b.coercion = .plain b.name b.kind ∧ b.kind ≠ .payload := by
  decide

namespace Coercion

variable {scalar : String} {lenient : Bool} {value v : Json}

theorem atomic_checkText (h : checkText scalar lenient value = .ok v) : v.Atomic := by
  simp only [checkText] at h
  split at h
  · cases h
    trivial
  · split at h
    · cases h
      trivial
    · cases h
  · cases h

theorem atomic_checkInteger (h : checkInteger scalar lenient value = .ok v) : v.Atomic := by
  simp only [checkInteger] at h
  split at h
  · cases h
    trivial
  · split at h
    · split at h
      · cases h
        trivial
      · cases h
    · cases h
  · cases h

theorem atomic_checkFloat (h : checkFloat scalar lenient value = .ok v) : v.Atomic := by
  simp only [checkFloat] at h
  split at h
  · cases h
    trivial
  · split at h
    · split at h
      · split at h
        · cases h
          trivial
        · cases h
      · cases h
      · cases h
    · cases h
  · cases h

theorem atomic_checkBoolean (h : checkBoolean scalar lenient value = .ok v) : v.Atomic := by
  simp only [checkBoolean] at h
  split at h
  · cases h
    trivial
  · split at h
    · split at h
      · cases h
        trivial
      split at h
      · cases h
        trivial
      · cases h
    · cases h
  · cases h

theorem atomic_checkDate (h : checkDate scalar value = .ok v) : v.Atomic := by
  simp only [checkDate] at h
  split at h
  · split at h
    · cases h
      trivial
    · cases h
  · cases h

theorem atomic_checkDateTime (h : checkDateTime scalar value = .ok v) : v.Atomic := by
  simp only [checkDateTime] at h
  split at h
  · split at h
    · cases h
      trivial
    · cases h
  · cases h

/-- A value of a family other than the documents is atomic. -/
theorem atomic_check {kind : ScalarKind} (h : check scalar kind lenient value = .ok v)
    (plain : kind ≠ .payload) : v.Atomic := by
  simp only [check] at h
  split at h
  · cases h
    trivial
  cases kind with
  | text => exact atomic_checkText h
  | integer => exact atomic_checkInteger h
  | float => exact atomic_checkFloat h
  | boolean => exact atomic_checkBoolean h
  | date => exact atomic_checkDate h
  | dateTime => exact atomic_checkDateTime h
  | payload => exact absurd rfl plain

end Coercion

open Coercion Comparison

/-- A coerced value of a standard scalar is atomic in its column. -/
theorem atomic_storedValue {b : ScalarBinding} (standard : b.Standard) {value v : Json}
    (h : b.coercion.literal value = .ok v ∨ b.coercion.input value = .ok v) :
    (storedValue b v).Atomic ∧ (b.coercion.stored v).Atomic := by
  rcases standard with ordinary | ⟨name, description, rfl | rfl⟩
  · obtain ⟨native, coercion, plain⟩ := ordinary_plain b ordinary
    have atomic : v.Atomic := by
      rw [coercion] at h
      rcases h with h | h
      · exact atomic_check h plain
      · exact atomic_check h plain
    simp only [storedValue]
    rw [native, coercion]
    exact ⟨atomic, atomic⟩
  · exact ⟨trivial, trivial⟩
  · exact ⟨trivial, trivial⟩

/-- The forms in which an operand is compared and stored are atoms. -/
theorem Predicate.atomic_coerce {vars : Variables} {field : String} {b : ScalarBinding}
    {operand : Operand} {v : Json} (standard : b.Standard)
    (h : Predicate.coerce vars field b operand = .ok v) :
    (storedValue b v).Atomic ∧ (b.coercion.stored v).Atomic := by
  obtain ⟨value, -, h⟩ := Outcome.bind_eq_ok.1 h
  have h := Outcome.mapError_eq_ok.1 h
  split at h
  · exact atomic_storedValue standard (.inr h)
  · exact atomic_storedValue standard (.inl h)

/-! ### Conditions of standard fields -/

/-- All values are atomic. -/
def Parameters.Atomic (ps : Parameters) : Prop := ∀ value ∈ ps.map (·.2), value.Atomic

/-- No names were lost, and what was bound is atomic. -/
structure Draft.Binds (d d' : Draft) : Prop where
  names : ∀ n ∈ Keyed.keys d.parameters, n ∈ Keyed.keys d'.parameters
  values : d.parameters.Atomic → d'.parameters.Atomic

/-- The expression is plain after a step that binds atomic values only. -/
def Draft.Makes (d d' : Draft) (e : Expr) : Prop :=
  e.Plain (Keyed.keys d'.parameters) ∧ d.Binds d'

variable {d d' d'' : Draft} {e : Expr}

theorem Draft.Binds.refl (d : Draft) : d.Binds d := ⟨fun _ hn => hn, fun h => h⟩

theorem Draft.Binds.trans (h : d.Binds d') (h' : d'.Binds d'') : d.Binds d'' :=
  ⟨fun n hn => h'.names n (h.names n hn), fun atomic => h'.values (h.values atomic)⟩

/-- Binding a value makes a plain expression of a new name. -/
theorem makes_bindValue {value : Json} (h : Gives (bindValue value) d e d')
    (atomic : value.Atomic) : d.Makes d' e := by
  obtain ⟨rfl, rfl⟩ := gives_bindValue.1 h
  refine ⟨?_, fun n hn => ?_, fun before => ?_⟩
  · show _ ∈ Keyed.keys (_ ++ [_])
    simp [Keyed.keys]
  · simp only [Keyed.keys, List.map_append, List.mem_append] at hn ⊢
    exact .inl hn
  · simp only [Parameters.Atomic]
    rw [List.map_append]
    exact List.forall_mem_append.2 ⟨before, List.forall_mem_singleton.2 atomic⟩

theorem makes_bindValues {values : List Json} {es : List Expr}
    (h : Gives (bindValues values) d es d') (atomic : ∀ value ∈ values, value.Atomic) :
    Expr.AllPlain (Keyed.keys d'.parameters) es ∧ d.Binds d' := by
  simp only [bindValues] at h
  induction values generalizing d es with
  | nil =>
    obtain ⟨rfl, rfl⟩ := gives_pure.1 h
    exact ⟨trivial, .refl d⟩
  | cons value values ih =>
    obtain ⟨first, others⟩ := List.forall_mem_cons.1 atomic
    rw [List.mapM_cons] at h
    obtain ⟨e, d₁, bound, h⟩ := gives_bind.1 h
    obtain ⟨es, d₂, more, h⟩ := gives_bind.1 h
    obtain ⟨rfl, rfl⟩ := gives_pure.1 h
    -- The first name stays bound while the others are added.
    obtain ⟨plain, binds⟩ := makes_bindValue bound first
    obtain ⟨plains, binds'⟩ := ih more others
    exact ⟨⟨plain.mono binds'.names, plains⟩, binds.trans binds'⟩

section Comparisons

variable {tableAlias name : String} {b : ScalarBinding}
variable (alias_plain : Dollarless tableAlias) (name_plain : Dollarless name)

include alias_plain name_plain

theorem plain_storedColumn (names : List String) :
    (storedColumn b (.column tableAlias name)).Plain names := by
  simp only [storedColumn]
  cases b.storage with
  | native => exact ⟨alias_plain, name_plain⟩
  | encoded => exact ⟨alias_plain, name_plain⟩

theorem makes_nullCheck (d : Draft) (isNull : Bool) :
    d.Makes d (nullCheck (.column tableAlias name) isNull) :=
  ⟨⟨⟨alias_plain, name_plain⟩, trivial⟩, .refl d⟩

/-- Comparing with a bound value makes a plain expression. -/
theorem makes_compareWith {operator : Operator} {value : Json}
    (h : Gives (compareWith operator b (.column tableAlias name) value) d e d')
    (atomic : (storedValue b value).Atomic) : d.Makes d' e := by
  obtain ⟨bound, d₁, step, h⟩ := gives_bind.1 h
  obtain ⟨rfl, rfl⟩ := gives_pure.1 h
  obtain ⟨plain, binds⟩ := makes_bindValue step atomic
  exact ⟨⟨plain_storedColumn alias_plain name_plain _, plain, trivial⟩, binds⟩

theorem makes_membership {values : List Json} {negated : Bool}
    (h : Gives (membership b (.column tableAlias name) values negated) d e d')
    (atomic : ∀ value ∈ values, (storedValue b value).Atomic) : d.Makes d' e := by
  obtain ⟨candidates, d₁, step, h⟩ := gives_bind.1 h
  obtain ⟨rfl, rfl⟩ := gives_pure.1 h
  obtain ⟨plain, binds⟩ := makes_bindValues step fun stored hs => by
    obtain ⟨value, hv, rfl⟩ := List.mem_map.1 hs
    exact atomic value hv
  exact ⟨⟨plain_storedColumn alias_plain name_plain _, plain, trivial⟩, binds⟩

/-- A comparison of a plain column with atoms is plain. -/
theorem makes_translate {operator : FilterOperator} {value : Json}
    (h : Gives (Comparison.translate b (.column tableAlias name) operator value) d e d')
    (atomic : (storedValue b value).Atomic ∧ (b.coercion.stored value).Atomic) :
    d.Makes d' e := by
  cases operator <;> simp only [Comparison.translate] at h
  case eq | ne =>
    split at h
    · obtain ⟨rfl, rfl⟩ := gives_pure.1 h
      exact makes_nullCheck alias_plain name_plain d _
    · exact makes_compareWith alias_plain name_plain h atomic.1
  case gt | ge | lt | le | like => exact makes_compareWith alias_plain name_plain h atomic.1
  case locate =>
    -- What is searched for is text, whatever the scalar.
    obtain ⟨needle, d₁, step, h⟩ := gives_bind.1 h
    obtain ⟨rfl, rfl⟩ := gives_pure.1 h
    obtain ⟨plain, binds⟩ := makes_bindValue step trivial
    have zero : Dollarless (Sql.literalText (.integer 0)) := by decide
    exact ⟨⟨⟨plain, alias_plain, name_plain⟩, zero, trivial⟩, binds⟩
  case contains =>
    obtain ⟨bound, d₁, step, h⟩ := gives_bind.1 h
    obtain ⟨rfl, rfl⟩ := gives_pure.1 h
    obtain ⟨plain, binds⟩ := makes_bindValue step atomic.2
    exact ⟨⟨⟨alias_plain, name_plain⟩, plain⟩, binds⟩
  case oneOf | noneOf =>
    exact makes_membership alias_plain name_plain h (List.forall_mem_singleton.2 atomic.1)
  case isNull | notNull =>
    obtain ⟨rfl, rfl⟩ := gives_pure.1 h
    exact makes_nullCheck alias_plain name_plain d _

/-- The condition of a field of a standard scalar is plain, and what it binds
is atomic. -/
theorem makes_comparison {vars : Variables} {field : String} {operator : FilterOperator}
    {operand : Operand} (standard : b.Standard)
    (h : Gives (Predicate.comparison vars field (.column tableAlias name) b operator operand)
      d e d') : d.Makes d' e := by
  -- A test for null, a list of candidates, or a single operand.
  simp only [Predicate.comparison] at h
  split at h
  · obtain ⟨given, d₁, step, h⟩ := gives_bind.1 h
    obtain ⟨-, rfl⟩ := gives_lift.1 step
    obtain ⟨rfl, rfl⟩ := gives_pure.1 h
    exact makes_nullCheck alias_plain name_plain d _
  split at h
  · obtain ⟨values, d₁, step, h⟩ := gives_bind.1 h
    obtain ⟨read, rfl⟩ := gives_lift.1 step
    refine makes_membership alias_plain name_plain h fun value hv => ?_
    obtain ⟨items, -, read⟩ := Outcome.bind_eq_ok.1 read
    obtain ⟨operand', -, coerced⟩ := Outcome.exists_of_mem_mapM read hv
    exact (Predicate.atomic_coerce standard coerced).1
  · obtain ⟨value, d₁, step, h⟩ := gives_bind.1 h
    obtain ⟨read, rfl⟩ := gives_lift.1 step
    exact makes_translate alias_plain name_plain h (Predicate.atomic_coerce standard read)

end Comparisons

/-! ### Filters -/

section Filters

open Predicate

variable {s : QuerySchema} {root : EntityType} {vars : Variables}

/-- The conditions of single fields are plain and bind atomic values. -/
def MakesAtLeaves (s : QuerySchema) (root : EntityType) (vars : Variables) : Prop :=
  ∀ {leaf : FilterLeaf} {d d' : Draft} {e : Expr}, Gives (compileLeaf s root vars leaf) d e d' →
    Joins.Planned s root d.joins → d.Makes d' e

mutual

/-- Where the conditions of single fields are plain and bind atomic values, that
of a filter is and does. -/
theorem makes_compile (leaves : MakesAtLeaves s root vars) {d d' : Draft} {e : Expr} {f : Filter}
    (h : Gives (compile s root vars f) d e d') (planned : Joins.Planned s root d.joins) :
    d.Makes d' e := by
  cases f with
  | leaf condition =>
    rw [compile] at h
    exact leaves h planned
  | and children =>
    rw [compile] at h
    obtain ⟨es, d₁, parts, h⟩ := gives_bind.1 h
    obtain ⟨rfl, rfl⟩ := gives_pure.1 h
    obtain ⟨made, binds⟩ := makes_compileAll leaves parts planned
    exact ⟨Expr.plain_allOf made, binds⟩
  | or children =>
    rw [compile] at h
    obtain ⟨es, d₁, parts, h⟩ := gives_bind.1 h
    obtain ⟨rfl, rfl⟩ := gives_pure.1 h
    obtain ⟨made, binds⟩ := makes_compileAll leaves parts planned
    exact ⟨Expr.plain_anyOf made, binds⟩
  | not child =>
    rw [compile] at h
    obtain ⟨e, d₁, part, h⟩ := gives_bind.1 h
    obtain ⟨rfl, rfl⟩ := gives_pure.1 h
    obtain ⟨made, binds⟩ := makes_compile leaves part planned
    exact ⟨⟨made, trivial⟩, binds⟩

/-- Filters compile to plain expressions if their leaves do. -/
theorem makes_compileAll (leaves : MakesAtLeaves s root vars) {d d' : Draft} {es : List Expr}
    {fs : List Filter} (h : Gives (compileAll s root vars fs) d es d')
    (planned : Joins.Planned s root d.joins) :
    Expr.AllPlain (Keyed.keys d'.parameters) es ∧ d.Binds d' := by
  cases fs with
  | nil =>
    obtain ⟨rfl, rfl⟩ := gives_pure.1 h
    exact ⟨trivial, .refl d⟩
  | cons f fs =>
    rw [compileAll] at h
    obtain ⟨e, d₁, first, h⟩ := gives_bind.1 h
    obtain ⟨es, d₂, others, h⟩ := gives_bind.1 h
    obtain ⟨rfl, rfl⟩ := gives_pure.1 h
    obtain ⟨made, binds⟩ := makes_compile leaves first planned
    obtain ⟨mades, binds'⟩ := makes_compileAll leaves others ((planned_compile first).2 planned)
    exact ⟨⟨made.mono binds'.names, mades⟩, binds.trans binds'⟩

end

end Filters

/-! ### Plain schemas -/

/-- The column of an association is plain. -/
def FieldKind.Plain : FieldKind → Prop
  | .scalar _ => True
  | .toOne _ joinColumn => Dollarless joinColumn
  | .toMany _ mappedBy => Dollarless mappedBy

instance : (kind : FieldKind) → Decidable kind.Plain
  | .scalar _ => .isTrue trivial
  | .toOne _ joinColumn => inferInstanceAs (Decidable (Dollarless joinColumn))
  | .toMany _ mappedBy => inferInstanceAs (Decidable (Dollarless mappedBy))

/-- Databases, tables, columns and fields have plain names. -/
structure EntityType.Plain (e : EntityType) : Prop where
  database : ∀ name, e.descriptor.database = some name → Dollarless name
  table : Dollarless e.descriptor.table
  fields : ∀ f ∈ e.fields,
    Dollarless f.name ∧ Dollarless f.descriptor.column ∧ f.descriptor.kind.Plain

instance (e : EntityType) : Decidable e.Plain :=
  decidable_of_iff ((∀ name, e.descriptor.database = some name → Dollarless name) ∧
    Dollarless e.descriptor.table ∧ ∀ f ∈ e.fields,
      Dollarless f.name ∧ Dollarless f.descriptor.column ∧ f.descriptor.kind.Plain)
    ⟨fun h => ⟨h.1, h.2.1, h.2.2⟩, fun h => ⟨h.database, h.table, h.fields⟩⟩

theorem Dollarless.append {m n : String} (hm : Dollarless m) (hn : Dollarless n) :
    Dollarless (m ++ n) := by
  intro dollar
  rw [String.toList_append] at dollar
  rcases List.mem_append.1 dollar with dollar | dollar
  · exact hm dollar
  · exact hn dollar

theorem dollarless_intercalate {separator : String} {ns : List String}
    (hs : Dollarless separator) (h : ∀ n ∈ ns, Dollarless n) :
    Dollarless (separator.intercalate ns) := by
  induction ns with
  | nil =>
    rw [String.intercalate_nil]
    decide
  | cons n ns ih =>
    obtain ⟨first, others⟩ := List.forall_mem_cons.1 h
    cases ns with
    | nil =>
      rw [String.intercalate_singleton]
      exact first
    | cons n' ns =>
      rw [String.intercalate_cons_cons]
      exact (first.append hs).append (ih others)

namespace EntityType.Plain

variable {e : EntityType} (h : e.Plain)

include h

theorem qualifiedTable : Dollarless e.descriptor.qualifiedTable := by
  have dot : Dollarless "." := by decide
  simp only [EntityDescriptor.qualifiedTable]
  split
  · next database named =>
    split
    · exact h.table
    · exact ((h.database database named).append dot).append h.table
  · exact h.table

theorem name {n : String} {f : SchemaField} (found : e.field? n = some f) : Dollarless n := by
  have same : f.name = n := by simpa using List.find?_some found
  rw [← same]
  exact (h.fields f (List.mem_of_find?_eq_some found)).1

theorem column {n : String} {f : SchemaField} (found : e.field? n = some f) :
    Dollarless f.descriptor.column :=
  (h.fields f (List.mem_of_find?_eq_some found)).2.1

theorem kind {n : String} {f : SchemaField} (found : e.field? n = some f) :
    f.descriptor.kind.Plain :=
  (h.fields f (List.mem_of_find?_eq_some found)).2.2

end EntityType.Plain

/-! ### Plain plans -/

variable {s : QuerySchema} {root : EntityType}

theorem dollarless_aliasOf? {joins : Joins} (numbered : joins.Numbered) {path : List String}
    {a : String} (joined : joins.aliasOf? path = some a) : Dollarless a := by
  obtain ⟨i, rfl⟩ := numbered.exists_number joined
  have t : Dollarless "t" := by decide
  exact t.append (Sql.dollarless_toString i)

section PlainSchemas

variable (plain : ∀ e ∈ s.entities, e.Plain) (hr : root ∈ s.entities)

include plain hr

/-- A path that leads somewhere has no dollar in it. -/
theorem dollarless_of_entityAt {p : List String} {e : EntityType}
    (h : s.entityAt root p = some e) : ∀ n ∈ p, Dollarless n := by
  induction p using List.reverseRecOn generalizing e with
  | nil => exact fun n hn => absurd hn List.not_mem_nil
  | append_singleton p a ih =>
    rw [s.entityAt_concat, s.associationAt_concat] at h
    obtain ⟨A, hA, -⟩ := Option.map_eq_some_iff.1 h
    obtain ⟨source, at_, hA⟩ := Option.bind_eq_some_iff.1 hA
    obtain ⟨found, -⟩ := (s.association?_eq_some).1 hA
    have name := (plain source (QuerySchema.mem_of_entityAt hr at_)).name found
    exact List.forall_mem_append.2 ⟨ih at_, List.forall_mem_singleton.2 name⟩

/-- The name of a column has no dollar in it. -/
theorem dollarless_columnName {p : List String} {e : EntityType} {f : String}
    {field : SchemaField} (h : s.entityAt root p = some e) (found : e.field? f = some field) :
    Dollarless (Selection.columnName p f) := by
  have name := (plain e (QuerySchema.mem_of_entityAt hr h)).name found
  rw [Selection.columnName_eq]
  refine dollarless_intercalate (by decide) (List.forall_mem_append.2 ⟨?_, ?_⟩)
  · exact dollarless_of_entityAt plain hr h
  · exact List.forall_mem_singleton.2 name

/-- The joins of a plan have plain tables, aliases and conditions. -/
theorem plain_join (identified : ∀ e ∈ s.entities, e.field? e.idField.name = some e.idField)
    {joins : Joins} (planned : Joins.Planned s root joins) {j : Join} (hj : j ∈ joins)
    (names : List String) :
    Dollarless j.table ∧ Dollarless j.tableAlias ∧ j.condition.Plain names := by
  -- Both sides of the condition are columns of joined entities.
  obtain ⟨before, after, split⟩ := List.append_of_mem hj
  obtain ⟨earlier, -, follows⟩ := planned.follows split
  have own := dollarless_aliasOf? planned.numbered (planned.aliases hj).1
  cases follows with
  | @mk p a parent A left right association joined sides =>
  have parentAlias := dollarless_aliasOf? earlier.numbered joined
  have target : s.entityAt root (p ++ [a]) = some A.target := by
    rw [s.entityAt_concat, association]
    rfl
  rw [s.associationAt_concat] at association
  obtain ⟨source, at_, leads⟩ := Option.bind_eq_some_iff.1 association
  obtain ⟨found, -, -, rfl⟩ := (s.association?_eq_some).1 leads
  have hs := QuerySchema.mem_of_entityAt hr at_
  have ht := QuerySchema.mem_of_entityAt hr target
  have kind := (plain A.source hs).kind found
  have sourceId := (plain A.source hs).column (identified A.source hs)
  have targetId := (plain A.target ht).column (identified A.target ht)
  refine ⟨(plain A.target ht).qualifiedTable, own, ?_⟩
  simp only [Joins.sides?] at sides
  split at sides
  · next toOne =>
    rw [toOne] at kind
    cases sides
    exact ⟨⟨parentAlias, kind⟩, ⟨own, targetId⟩, trivial⟩
  · next toMany =>
    rw [toMany] at kind
    cases sides
    exact ⟨⟨own, kind⟩, ⟨parentAlias, sourceId⟩, trivial⟩
  · cases sides

/-! ### Plain conditions -/

variable (standard : ∀ e ∈ s.entities, ∀ f ∈ e.fields, ∀ b, f.binding = some b → b.Standard)
variable {vars : Variables}

include standard

open Predicate

/-- The condition of a field is plain and binds atomic values. -/
theorem makes_compileLeaf : MakesAtLeaves s root vars := by
  intro leaf d d' e h planned
  obtain ⟨between, name, last, field, b, op, a, d₁, -, at_, found, bound, -, joined, unbound,
    stays, comparison⟩ := compileLeaf_cases h
  have hl := QuerySchema.mem_of_entityAt hr at_
  have alias_plain := dollarless_aliasOf? (stays planned).numbered joined
  have column := (plain last hl).column found
  have scalar := standard last hl field (List.mem_of_find?_eq_some found) b bound
  obtain ⟨made, binds⟩ := makes_comparison alias_plain column scalar comparison
  refine ⟨made, fun n hn => binds.names n ?_, fun atomic => binds.values ?_⟩
  · rw [unbound]
    exact hn
  · rw [unbound]
    exact atomic

/-- A planned query over plain names and standard scalars is plain, and all its
values are atomic. -/
theorem Planning.PlanOf.plain_query {named : String → Prop} {field select : Document.Field}
    {plan : RootPlan} {gs : List SelectedField}
    (p : PlanOf s named vars field plan root select gs)
    (identified : ∀ e ∈ s.entities, e.field? e.idField.name = some e.idField) :
    plan.query.Plain (Keyed.keys plan.query.parameters) ∧
      Parameters.Atomic plan.query.parameters := by
  obtain ⟨d₁, d₂, compiled, planned, unbound, joins, parameters⟩ := p.compiled
  have made : (∀ e, plan.query.filter = some e → e.Plain (Keyed.keys d₂.parameters)) ∧
      d₁.Binds d₂ := by
    cases filter : plan.filter with
    | none =>
      rw [filter] at compiled
      obtain ⟨nothing, rfl⟩ := gives_pure.1 compiled
      refine ⟨fun e same => ?_, .refl d₁⟩
      rw [← nothing] at same
      cases same
    | some f =>
      rw [filter] at compiled
      obtain ⟨e, d₃, condition, compiled⟩ := gives_bind.1 compiled
      obtain ⟨something, rfl⟩ := gives_pure.1 compiled
      obtain ⟨made, binds⟩ := makes_compile (makes_compileLeaf plain hr standard) condition planned
      refine ⟨fun e' same => ?_, binds⟩
      rw [← something] at same
      cases same
      exact made
  rw [parameters] at made
  constructor
  · -- Names in the query are names of the schema, or numbered aliases.
    exact {
      columns := by
        intro c hc
        obtain ⟨entity, found, joined, -⟩ := p.columns c hc
        have he := QuerySchema.mem_of_entityAt hr entity
        exact ⟨⟨dollarless_aliasOf? p.joins.numbered joined, (plain _ he).column found⟩,
          dollarless_columnName plain hr entity found⟩
      table := by
        rw [p.table]
        exact (plain root hr).qualifiedTable
      tableAlias := by
        rw [p.tableAlias]
        decide
      joins := fun j hj => plain_join plain hr identified p.joins hj _
      filter := made.1
      order := by
        intro k hk
        obtain ⟨entity, found, joined⟩ := p.order k hk
        have he := QuerySchema.mem_of_entityAt hr entity
        exact ⟨dollarless_aliasOf? p.joins.numbered joined, (plain _ he).column found⟩ }
  · -- Only the filter binds values.
    rw [← parameters]
    refine made.2.values ?_
    rw [unbound]
    exact fun value hv => absurd hv List.not_mem_nil

end PlainSchemas

end EntityQuery
