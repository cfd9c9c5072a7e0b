/-
EntityQuery/Proofs/Meaning.lean

What a filter says about rows, and that its condition says the same.

A filter speaks of the rows at the ends of association paths.  Given a row,
or none, for every path (a `Choice`), each leaf has a verdict on the row at
its path (`Predicate.leafVerdict`), and the filter has the truth value that
its leaves give it (`Predicate.meaning`).  No join and no alias occurs in
this.

Compiling a leaf joins its path, so the alias of the path is bound in every
binding that covers the joins; the condition reads the row bound there
(`eval_compileLeaf`).  Compiling a filter is compiling its leaves from left
to right (`compile_iff_leaves`), and its condition puts their values together
as the truth values are put together (`eval_compile`).  The main result is
`eval_compile_kleene`.
-/
import EntityQuery.Proofs.Association
import EntityQuery.Proofs.Verdict
import EntityQuery.Schema.Build
import EntityQuery.Store.Tables

namespace EntityQuery

/-! ### Choices of rows -/

/-- A row, or none, for every path of associations. -/
abbrev Choice := List String → Option Row

namespace Store

/-- The value of a column of a row; without the row it is null. -/
def cellOf (row : Option Row) (name : String) : Json :=
  match row with
  | none => .null
  | some row => (Keyed.find? row name).getD .null

theorem columnValue_of_find? {binding : Binding} {tableAlias : String} {row : Option Row}
    (h : Keyed.find? binding tableAlias = some row) (name : String) :
    columnValue binding tableAlias name = .ok (cellOf row name) := by
  simp only [columnValue, cellOf]
  rw [h]
  cases row with
  | none => rfl
  | some row => rfl

end Store

namespace Joins

open Store

/-- The binding has something for the root and for every join. -/
def Covers (joins : Joins) (binding : Binding) : Prop :=
  rootAlias ∈ Keyed.keys binding ∧ ∀ j ∈ joins, j.tableAlias ∈ Keyed.keys binding

/-- The binding has the chosen row for a path, if the path has an alias. -/
def AgreesAt (joins : Joins) (binding : Binding) (choice : Choice) (path : List String) : Prop :=
  ∀ tableAlias, aliasOf? joins path = some tableAlias →
    Keyed.find? binding tableAlias = some (choice path)

/-- The binding has the chosen row for every path that has an alias. -/
def Agrees (joins : Joins) (binding : Binding) (choice : Choice) : Prop :=
  ∀ path, AgreesAt joins binding choice path

/-- A binding that agrees at more joins agrees at fewer. -/
theorem AgreesAt.anti {joins more : Joins} {binding : Binding} {choice : Choice}
    {path : List String} (h : joins <+: more) (agrees : AgreesAt more binding choice path) :
    AgreesAt joins binding choice path := by
  intro tableAlias found
  exact agrees tableAlias (aliasOf?_mono h found)

/-- The choice that a binding makes. -/
def choiceOf (joins : Joins) (binding : Binding) : Choice := fun path =>
  ((aliasOf? joins path).bind (Keyed.find? binding ·)).join

theorem mem_of_aliasOf? {joins : Joins} {path : List String} {tableAlias : String}
    (h : aliasOf? joins path = some tableAlias) :
    tableAlias = rootAlias ∨ ∃ j ∈ joins, j.tableAlias = tableAlias := by
  simp only [aliasOf?] at h
  split at h
  · exact .inl (Option.some.inj h).symm
  · obtain ⟨j, found, e⟩ := Option.map_eq_some_iff.1 h
    exact .inr ⟨j, (mem_of_find? found).1, e⟩

/-- All aliases are numbered, that of the root among them. -/
theorem Numbered.exists_number {joins : Joins} (numbered : joins.Numbered) {path : List String}
    {tableAlias : String} (h : aliasOf? joins path = some tableAlias) :
    ∃ i : Nat, tableAlias = "t" ++ toString i := by
  rcases mem_of_aliasOf? h with rfl | ⟨j, hj, rfl⟩
  · exact ⟨0, rfl⟩
  · have named : j.tableAlias ∈ joins.map (·.tableAlias) := List.mem_map_of_mem hj
    rw [numbered.aliases] at named
    obtain ⟨i, -, same⟩ := List.mem_map.1 named
    exact ⟨i + 1, same.symm⟩

/-- A binding that covers joins agrees with the choice that it makes. -/
theorem Covers.agrees {joins : Joins} {binding : Binding} (h : Covers joins binding) :
    Agrees joins binding (choiceOf joins binding) := by
  intro path tableAlias found
  have bound : tableAlias ∈ Keyed.keys binding := by
    rcases mem_of_aliasOf? found with rfl | ⟨j, hj, rfl⟩
    · exact h.1
    · exact h.2 j hj
  obtain ⟨row, hrow⟩ := Option.isSome_iff_exists.1 (Keyed.isSome_find?.2 bound)
  simp only [choiceOf]
  rw [found, Option.bind_some, hrow]
  rfl

end Joins

/-! ### The meaning of filters -/

namespace Predicate

open Store

/-- What a leaf says about the row at the end of its associations; nothing if
its path leads to no field, or its operator or operand is wrong for the
field. -/
def leafVerdict (schema : QuerySchema) (root : EntityType) (vars : Variables) (choice : Choice)
    (leaf : FilterLeaf) : Option Json := do
  let name ← leaf.path.getLast?
  let entity ← schema.entityAt root leaf.path.dropLast
  let field ← entity.field? name
  let b ← field.binding
  let operator ← (FilterOperator.ofToken? leaf.operator).filter b.supports
  (verdict vars (".".intercalate leaf.path) b operator leaf.value
    (cellOf (choice leaf.path.dropLast) field.descriptor.column)).toOption

/-- The truth of a leaf. -/
def leafTruth (schema : QuerySchema) (root : EntityType) (vars : Variables) (choice : Choice)
    (leaf : FilterLeaf) : Truth :=
  Truth.ofJson ((leafVerdict schema root vars choice leaf).getD .null)

/-- The truth of a filter about a choice of rows. -/
def meaning (schema : QuerySchema) (root : EntityType) (vars : Variables) (choice : Choice)
    (f : Filter) : Truth :=
  f.truth (leafTruth schema root vars choice)

variable {schema : QuerySchema} {root : EntityType} {vars : Variables} {choice : Choice}

/-- A leaf at the end of a path has the verdict of its field. -/
theorem leafVerdict_concat {before : List String} {name operator : String} {operand : Operand}
    {entity : EntityType} {field : SchemaField} {b : ScalarBinding} {op : FilterOperator}
    (at_ : schema.entityAt root before = some entity) (found : entity.field? name = some field)
    (scalar : field.binding = some b)
    (supported : (FilterOperator.ofToken? operator).filter b.supports = some op) :
    leafVerdict schema root vars choice ⟨before ++ [name], operator, operand⟩ =
      (verdict vars (".".intercalate (before ++ [name])) b op operand
        (cellOf (choice before) field.descriptor.column)).toOption := by
  simp only [leafVerdict]
  simp [at_, found, scalar, supported]

/-- A verdict is a truth value. -/
theorem leafVerdict_eq_toJson {leaf : FilterLeaf} {v : Json}
    (h : leafVerdict schema root vars choice leaf = some v) :
    v = (leafTruth schema root vars choice leaf).toJson := by
  have truth : v.IsTruth := by
    simp only [leafVerdict] at h
    simp only [Option.bind_eq_bind, Option.bind_eq_some_iff] at h
    obtain ⟨name, -, entity, -, field, -, b, -, op, -, h⟩ := h
    exact isTruth_verdict (Outcome.toOption_eq_some.1 h)
  obtain ⟨t, rfl⟩ := truth
  simp only [leafTruth]
  rw [h, Option.getD_some, Truth.ofJson_toJson]

/-- A filter looks at the rows at the ends of its paths alone. -/
theorem meaning_congr {choice choice' : Choice} {f : Filter}
    (h : ∀ leaf ∈ f.leaves, choice leaf.path.dropLast = choice' leaf.path.dropLast) :
    meaning schema root vars choice f = meaning schema root vars choice' f := by
  refine Filter.truth_congr f fun leaf hl => ?_
  simp only [leafTruth, leafVerdict]
  rw [h leaf hl]

/-! ### Conditions of leaves -/

open Planner Joins

variable {d d' : Draft}

/-- A change that leaves the joins as they were. -/
def KeepsJoins (d d' : Draft) : Prop := d'.joins = d.joins

theorem cumulative_keepsJoins : Cumulative KeepsJoins :=
  ⟨fun _ => rfl, fun h₁ h₂ => h₂.trans h₁⟩

theorem keepsJoins_bindValue : KeptByBinding KeepsJoins := by
  intro value d e d' h
  obtain ⟨-, rfl⟩ := gives_bindValue.1 h
  rfl

/-- The path of a leaf is joined up to the field at its end, which is then
compared; the joins keep their shape on the way. -/
theorem compileFrom_cases {operator : String} {operand : Operand} {entity : EntityType}
    {tableAlias : String} {before path : List String} {e : Expr}
    (h : Gives (compileFrom schema vars operator operand entity tableAlias before path) d e d')
    (at_ : schema.entityAt root before = some entity)
    (joined : aliasOf? d.joins before = some tableAlias) :
    ∃ between name last field b op a d₁, path = between ++ [name] ∧
      schema.entityAt root (before ++ between) = some last ∧ last.field? name = some field ∧
      field.binding = some b ∧ (FilterOperator.ofToken? operator).filter b.supports = some op ∧
      aliasOf? d₁.joins (before ++ between) = some a ∧ d₁.parameters = d.parameters ∧
      (Planned schema root d.joins → Planned schema root d₁.joins) ∧
      Gives (comparison vars (".".intercalate (before ++ path))
        (.column a field.descriptor.column) b op operand) d₁ e d' := by
  induction path generalizing d entity tableAlias before with
  | nil => exact absurd h gives_throw
  | cons segment rest ih =>
    unfold compileFrom at h
    split at h
    case h_2 => exact absurd h gives_throw
    next field found =>
    dsimp only at h
    split at h
    · -- The path ends here, at a scalar field.
      next b scalar =>
      split at h
      · next op supported =>
        refine ⟨[], segment, entity, field, b, op, tableAlias, d, rfl, ?_, found, scalar,
          supported, ?_, rfl, fun planned => planned, h⟩
        · rw [List.append_nil, at_]
        · rw [List.append_nil, joined]
      · exact absurd h gives_throw
    · exact absurd h gives_throw
    · exact absurd h gives_throw
    · -- The path goes on from the target, which is joined first.
      next scalar inside =>
      obtain ⟨⟨next, target⟩, d₁, join, h⟩ := gives_bind.1 h
      obtain ⟨further, joined, planned⟩ := join.join at_ joined found scalar
      have unbound : d₁.parameters = d.parameters := by
        obtain ⟨_, _, -, -, -, rfl⟩ := gives_join.1 join
        rfl
      obtain ⟨between, name, last, field', b, op, a, d₂, rfl, last_at, found', scalar', supported,
        joined', unbound', planned', h⟩ := ih h further joined
      rw [← List.append_cons] at last_at joined' h
      exact ⟨segment :: between, name, last, field', b, op, a, d₂, rfl, last_at, found', scalar',
        supported, joined', unbound'.trans unbound, fun p => planned' (planned p), h⟩

/-- The steps of compiling a leaf that can be compiled. -/
theorem compileLeaf_cases {leaf : FilterLeaf} {e : Expr}
    (h : Gives (compileLeaf schema root vars leaf) d e d') :
    ∃ between name last field b op a d₁, leaf.path = between ++ [name] ∧
      schema.entityAt root between = some last ∧ last.field? name = some field ∧
      field.binding = some b ∧
      (FilterOperator.ofToken? leaf.operator).filter b.supports = some op ∧
      aliasOf? d₁.joins between = some a ∧ d₁.parameters = d.parameters ∧
      (Planned schema root d.joins → Planned schema root d₁.joins) ∧
      Gives (comparison vars (".".intercalate leaf.path)
        (.column a field.descriptor.column) b op leaf.value) d₁ e d' := by
  simp only [compileLeaf] at h
  split at h
  · exact absurd h gives_throw
  · exact compileFrom_cases h (schema.entityAt_nil root) (aliasOf?_nil _)

/-- The condition of a leaf has the value of the leaf's verdict, in every
binding that has the row chosen for its path. -/
theorem eval_compileLeaf {leaf : FilterLeaf} {e : Expr}
    (h : Gives (compileLeaf schema root vars leaf) d e d') (hd : d.parameters.Sequential)
    {binding : Binding} (agrees : AgreesAt d'.joins binding choice leaf.path.dropLast) :
    leafVerdict schema root vars choice leaf =
        some (leafTruth schema root vars choice leaf).toJson ∧
      eval d'.parameters binding e =
        .ok (leafTruth schema root vars choice leaf).toJson := by
  obtain ⟨path, operator, operand⟩ := leaf
  obtain ⟨between, name, last, field, b, op, a, d₁, rfl, at_, found, scalar, supported, joined,
    unbound, -, comparison⟩ := compileLeaf_cases h
  rw [← unbound] at hd
  have joins : d'.joins = d₁.joins :=
    Keeps.comparison cumulative_keepsJoins keepsJoins_bindValue _ _ _ _ _ _ _ _ _ comparison
  -- The binding has the chosen row under the alias that the condition reads.
  rw [joins, List.dropLast_concat] at agrees
  have cell := columnValue_of_find? (agrees a joined) field.descriptor.column
  obtain ⟨v, hv, value⟩ := eval_comparison comparison hd cell
  have verdict : leafVerdict schema root vars choice ⟨between ++ [name], operator, operand⟩ =
      some v := by
    rw [leafVerdict_concat at_ found scalar supported]
    exact Outcome.toOption_eq_some.2 hv
  rw [← leafVerdict_eq_toJson verdict]
  exact ⟨verdict, value⟩

/-- Compiling a leaf keeps the shape of the joins, and joins its path. -/
theorem planned_compileLeaf {leaf : FilterLeaf} {e : Expr}
    (h : Gives (compileLeaf schema root vars leaf) d e d') :
    (∃ a, aliasOf? d'.joins leaf.path.dropLast = some a) ∧
      (Planned schema root d.joins → Planned schema root d'.joins) := by
  obtain ⟨between, name, last, field, b, op, a, d₁, path, -, -, -, -, joined, -, planned,
    comparison⟩ := compileLeaf_cases h
  have joins : d'.joins = d₁.joins :=
    Keeps.comparison cumulative_keepsJoins keepsJoins_bindValue _ _ _ _ _ _ _ _ _ comparison
  rw [joins, path, List.dropLast_concat]
  exact ⟨⟨a, joined⟩, planned⟩

/-! ### Conditions of filters -/

/-- Compiling leaves one after another. -/
def compileLeaves (schema : QuerySchema) (root : EntityType) (vars : Variables)
    (leaves : List FilterLeaf) : Planner (List Expr) :=
  leaves.mapM (compileLeaf schema root vars)

private theorem gives_compileLeaves_append {ks ls : List FilterLeaf} :
    (∃ es, Gives (compileLeaves schema root vars (ks ++ ls)) d es d') ↔
      ∃ d₁, (∃ es, Gives (compileLeaves schema root vars ks) d es d₁) ∧
        ∃ es, Gives (compileLeaves schema root vars ls) d₁ es d' := by
  simp only [compileLeaves]
  rw [List.mapM_append]
  constructor
  · rintro ⟨es, h⟩
    obtain ⟨es₁, d₁, first, h⟩ := gives_bind.1 h
    obtain ⟨es₂, d₂, second, h⟩ := gives_bind.1 h
    obtain ⟨-, rfl⟩ := gives_pure.1 h
    exact ⟨d₁, ⟨es₁, first⟩, ⟨es₂, second⟩⟩
  · rintro ⟨d₁, ⟨es₁, first⟩, ⟨es₂, second⟩⟩
    refine ⟨es₁ ++ es₂, gives_bind.2 ⟨es₁, d₁, first, ?_⟩⟩
    exact gives_bind.2 ⟨es₂, d', second, gives_pure.2 ⟨rfl, rfl⟩⟩

private theorem gives_map_iff {α β : Type} {x : Planner α} {f : α → β} :
    (∃ b, Gives (do return f (← x)) d b d') ↔ ∃ a, Gives x d a d' := by
  constructor
  · rintro ⟨b, h⟩
    obtain ⟨a, d₁, first, h⟩ := gives_bind.1 h
    obtain ⟨-, rfl⟩ := gives_pure.1 h
    exact ⟨a, first⟩
  · rintro ⟨a, h⟩
    exact ⟨f a, gives_bind.2 ⟨a, d', h, gives_pure.2 ⟨rfl, rfl⟩⟩⟩

mutual

/-- Compiling a filter is compiling its leaves from left to right: it succeeds
where they do, and leaves the same draft. -/
theorem compile_iff_leaves {d d' : Draft} (f : Filter) :
    (∃ e, Gives (compile schema root vars f) d e d') ↔
      ∃ es, Gives (compileLeaves schema root vars f.leaves) d es d' := by
  cases f with
  | leaf condition =>
    rw [compile]
    show _ ↔ ∃ es, Gives ([condition].mapM (compileLeaf schema root vars)) d es d'
    simp only [List.mapM_cons, List.mapM_nil, pure_bind]
    exact gives_map_iff.symm
  | and children =>
    rw [compile, gives_map_iff]
    exact compileAll_iff_leaves children
  | or children =>
    rw [compile, gives_map_iff]
    exact compileAll_iff_leaves children
  | not child =>
    rw [compile, gives_map_iff]
    exact compile_iff_leaves child

/-- Filters compile exactly if their leaves do. -/
theorem compileAll_iff_leaves {d d' : Draft} (fs : List Filter) :
    (∃ es, Gives (compileAll schema root vars fs) d es d') ↔
      ∃ es, Gives (compileLeaves schema root vars (Filter.leavesOf fs)) d es d' := by
  cases fs with
  | nil => exact Iff.rfl
  | cons f fs =>
    -- The first filter and then the others, as the leaves of the list are those
    -- of the first and then the rest.
    have parts : (∃ es, Gives (compileAll schema root vars (f :: fs)) d es d') ↔
        ∃ d₁, (∃ e, Gives (compile schema root vars f) d e d₁) ∧
          ∃ es, Gives (compileAll schema root vars fs) d₁ es d' := by
      rw [compileAll]
      constructor
      · rintro ⟨es, h⟩
        obtain ⟨e, d₁, first, h⟩ := gives_bind.1 h
        exact ⟨d₁, ⟨e, first⟩, gives_map_iff.1 ⟨es, h⟩⟩
      · rintro ⟨d₁, ⟨e, first⟩, others⟩
        obtain ⟨es, h⟩ := gives_map_iff (f := (e :: ·)).2 others
        exact ⟨es, gives_bind.2 ⟨e, d₁, first, h⟩⟩
    rw [parts, Filter.leavesOf, gives_compileLeaves_append]
    constructor
    · rintro ⟨d₁, first, others⟩
      exact ⟨d₁, (compile_iff_leaves f).1 first, (compileAll_iff_leaves fs).1 others⟩
    · rintro ⟨d₁, first, others⟩
      exact ⟨d₁, (compile_iff_leaves f).2 first, (compileAll_iff_leaves fs).2 others⟩

end

/-- The conditions of leaves have the values of their verdicts. -/
theorem evalAll_compileLeaves {leaves : List FilterLeaf} {es : List Expr}
    (h : Gives (compileLeaves schema root vars leaves) d es d') (hd : d.parameters.Sequential)
    {binding : Binding}
    (agrees : ∀ leaf ∈ leaves, AgreesAt d'.joins binding choice leaf.path.dropLast) :
    evalAll d'.parameters binding es =
      .ok (leaves.map fun leaf => (leafTruth schema root vars choice leaf).toJson) := by
  simp only [compileLeaves] at h
  induction leaves generalizing d es with
  | nil =>
    obtain ⟨rfl, rfl⟩ := gives_pure.1 h
    rfl
  | cons leaf leaves ih =>
    rw [List.mapM_cons, gives_bind] at h
    obtain ⟨e, d₁, first, h⟩ := h
    obtain ⟨es, d₂, others, h⟩ := gives_bind.1 h
    obtain ⟨rfl, rfl⟩ := gives_pure.1 h
    -- What the first leaf bound is still there after the others, so that its value stays.
    have grown : d₁.Grows d₂ := Keeps.mapM cumulative_grows
      (Keeps.compileLeaf cumulative_grows grows_bindValue grows_join _ _ _) _ _ _ _ others
    have sequential := Keeps.compileLeaf cumulative_sequential sequential_bindValue
      sequential_join _ _ _ _ _ _ _ first hd
    have value := (eval_compileLeaf first hd ((agrees leaf List.mem_cons_self).anti grown.joins)).2
    exact evalAll_cons (eval_mono grown.parameters e value)
      (ih others sequential fun leaf hl => agrees leaf (List.mem_cons_of_mem _ hl))

private theorem eval_of_singleton {ps : Parameters} {binding : Binding} {e : Expr} {v : Json}
    (h : evalAll ps binding [e] = .ok [v]) : eval ps binding e = .ok v := by
  obtain ⟨w, hw, rest⟩ := Outcome.bind_eq_ok.1 h
  obtain ⟨ws, hws, e⟩ := Outcome.bind_eq_ok.1 rest
  cases e
  exact hw

private theorem length_evalAll {ps : Parameters} {binding : Binding} {es : List Expr}
    {vs : List Json} (h : evalAll ps binding es = .ok vs) : vs.length = es.length := by
  induction es generalizing vs with
  | nil =>
    cases h
    rfl
  | cons e es ih =>
    obtain ⟨w, -, rest⟩ := Outcome.bind_eq_ok.1 h
    obtain ⟨ws, hws, e⟩ := Outcome.bind_eq_ok.1 rest
    cases e
    rw [List.length_cons, List.length_cons, ih hws]

/-- A group of conditions, a single one standing for itself, has the value of
the operator on their truth values. -/
private theorem eval_group {ps : Parameters} {binding : Binding} {es : List Expr}
    {ts : List Truth} {group : List Expr → Expr} {join : List Truth → Truth} (operator : Operator)
    (nothing : eval ps binding (group []) = .ok (join []).toJson)
    (single : ∀ e, group [e] = e) (several : ∀ e₁ e₂ es,
      group (e₁ :: e₂ :: es) = .apply operator (e₁ :: e₂ :: es))
    (one : ∀ t, join [t] = t)
    (many : ∀ ts, applyOperator operator (ts.map Truth.toJson) = .ok (join ts).toJson)
    (h : evalAll ps binding es = .ok (ts.map Truth.toJson)) :
    eval ps binding (group es) = .ok (join ts).toJson := by
  -- There are as many truth values as conditions, so both lists are of one shape.
  have length := length_evalAll h
  rw [List.length_map] at length
  match es, ts, length with
  | [], [], _ => exact nothing
  | [e], [t], _ =>
    rw [single, one]
    exact eval_of_singleton h
  | e₁ :: e₂ :: es, ts, _ =>
    rw [several, eval_apply h]
    exact many ts

/-- Conditions that all have to hold are worth the least of their truths. -/
theorem eval_allOf {ps : Parameters} {binding : Binding} {es : List Expr} {ts : List Truth}
    (h : evalAll ps binding es = .ok (ts.map Truth.toJson)) :
    eval ps binding (.allOf es) = .ok (Truth.all ts).toJson := by
  refine eval_group .and rfl (fun _ => rfl) (fun _ _ _ => rfl) Truth.all_singleton
    (fun ts => ?_) h
  exact congrArg Except.ok (Truth.conjunction_toJson ts)

/-- Conditions of which one has to hold are worth the greatest. -/
theorem eval_anyOf {ps : Parameters} {binding : Binding} {es : List Expr} {ts : List Truth}
    (h : evalAll ps binding es = .ok (ts.map Truth.toJson)) :
    eval ps binding (.anyOf es) = .ok (Truth.any ts).toJson := by
  refine eval_group .or rfl (fun _ => rfl) (fun _ _ _ => rfl) Truth.any_singleton
    (fun ts => ?_) h
  exact congrArg Except.ok (Truth.disjunction_toJson ts)

mutual

/-- The condition of a filter has the truth value that the filter means, in
every binding that has the rows chosen for the paths of its leaves. -/
theorem eval_compile {d d' : Draft} {f : Filter} {e : Expr}
    (h : Gives (compile schema root vars f) d e d') (hd : d.parameters.Sequential)
    {binding : Binding}
    (agrees : ∀ leaf ∈ f.leaves, AgreesAt d'.joins binding choice leaf.path.dropLast) :
    eval d'.parameters binding e = .ok (meaning schema root vars choice f).toJson := by
  cases f with
  | leaf condition =>
    rw [compile] at h
    exact (eval_compileLeaf h hd (agrees condition List.mem_cons_self)).2
  | and children =>
    rw [compile] at h
    obtain ⟨es, d₁, parts, h⟩ := gives_bind.1 h
    obtain ⟨rfl, rfl⟩ := gives_pure.1 h
    exact eval_allOf (evalAll_compileAll parts hd agrees)
  | or children =>
    rw [compile] at h
    obtain ⟨es, d₁, parts, h⟩ := gives_bind.1 h
    obtain ⟨rfl, rfl⟩ := gives_pure.1 h
    exact eval_anyOf (evalAll_compileAll parts hd agrees)
  | not child =>
    rw [compile] at h
    obtain ⟨e, d₁, part, h⟩ := gives_bind.1 h
    obtain ⟨rfl, rfl⟩ := gives_pure.1 h
    -- A negation has one operand, which is evaluated as a list of one.
    have value := eval_compile part hd agrees
    have operand := evalAll_cons value (rfl : evalAll d₁.parameters binding [] = .ok [])
    simp only [Expr.negation]
    rw [eval_apply operand]
    exact congrArg Except.ok (Truth.contrary_toJson _)

/-- Each of several filters is worth its own truth. -/
theorem evalAll_compileAll {d d' : Draft} {fs : List Filter} {es : List Expr}
    (h : Gives (compileAll schema root vars fs) d es d') (hd : d.parameters.Sequential)
    {binding : Binding} (agrees : ∀ leaf ∈ Filter.leavesOf fs,
      AgreesAt d'.joins binding choice leaf.path.dropLast) :
    evalAll d'.parameters binding es =
      .ok ((Filter.truths (leafTruth schema root vars choice) fs).map Truth.toJson) := by
  cases fs with
  | nil =>
    obtain ⟨rfl, rfl⟩ := gives_pure.1 h
    rfl
  | cons f fs =>
    rw [compileAll] at h
    obtain ⟨e, d₁, first, h⟩ := gives_bind.1 h
    obtain ⟨es, d₂, others, h⟩ := gives_bind.1 h
    obtain ⟨rfl, rfl⟩ := gives_pure.1 h
    -- Later conditions add joins and values, which leaves the first value as it is.
    have grown := Keeps.compileAll cumulative_grows grows_bindValue grows_join _ _ _ _ _ _ _ others
    have sequential := Keeps.compile cumulative_sequential sequential_bindValue sequential_join
      _ _ _ _ _ _ _ first hd
    have value := eval_compile first hd fun leaf hl =>
      (agrees leaf (List.mem_append_left _ hl)).anti grown.joins
    exact evalAll_cons (eval_mono grown.parameters e value)
      (evalAll_compileAll others sequential fun leaf hl =>
        agrees leaf (List.mem_append_right _ hl))

end

/-- Compiling leaves keeps the shape of the joins, and joins their paths. -/
theorem planned_compileLeaves {leaves : List FilterLeaf} {es : List Expr}
    (h : Gives (compileLeaves schema root vars leaves) d es d') :
    (∀ leaf ∈ leaves, ∃ a, aliasOf? d'.joins leaf.path.dropLast = some a) ∧
      (Planned schema root d.joins → Planned schema root d'.joins) := by
  simp only [compileLeaves] at h
  induction leaves generalizing d es with
  | nil =>
    obtain ⟨rfl, rfl⟩ := gives_pure.1 h
    exact ⟨fun leaf hl => absurd hl List.not_mem_nil, fun planned => planned⟩
  | cons leaf leaves ih =>
    rw [List.mapM_cons, gives_bind] at h
    obtain ⟨e, d₁, first, h⟩ := h
    obtain ⟨es, d₂, others, h⟩ := gives_bind.1 h
    obtain ⟨rfl, rfl⟩ := gives_pure.1 h
    -- Aliases given to the first leaf stay while the others are compiled.
    have grown : d₁.Grows d₂ := Keeps.mapM cumulative_grows
      (Keeps.compileLeaf cumulative_grows grows_bindValue grows_join _ _ _) _ _ _ _ others
    obtain ⟨⟨a, joined⟩, planned⟩ := planned_compileLeaf first
    obtain ⟨joins, planned'⟩ := ih others
    constructor
    · intro leaf' hl
      rcases List.mem_cons.1 hl with rfl | hl
      · exact ⟨a, aliasOf?_mono grown.joins joined⟩
      · exact joins leaf' hl
    · exact fun h => planned' (planned h)

/-- Compiling a filter keeps the shape of the joins, and joins the paths of
its leaves. -/
theorem planned_compile {f : Filter} {e : Expr}
    (h : Gives (compile schema root vars f) d e d') :
    (∀ leaf ∈ f.leaves, ∃ a, aliasOf? d'.joins leaf.path.dropLast = some a) ∧
      (Planned schema root d.joins → Planned schema root d'.joins) := by
  obtain ⟨es, leaves⟩ := (compile_iff_leaves f).1 ⟨e, h⟩
  exact planned_compileLeaves leaves

/-- Where a condition has a truth value in every binding, the bindings that
satisfy it are found without a fault. -/
theorem keep_of_truth {ps : Parameters} {e : Expr} {bindings : List Binding}
    (truth : Binding → Truth)
    (h : ∀ binding ∈ bindings, eval ps binding e = .ok (truth binding).toJson) :
    Tables.keep ps e bindings =
      .ok (bindings.filter fun binding => isTrue (truth binding).toJson) := by
  simp only [Tables.keep]
  refine Outcome.filterM_ok fun binding hb => ?_
  rw [h binding hb]
  rfl

/-- **The condition of a filter is its strong Kleene interpretation.**  In
every binding that covers the joins, the condition has the truth value that
the tree gives to the values of the conditions of its leaves; and a filter
rewritten by double negation and the laws of De Morgan compiles to a condition
that keeps the same bindings. -/
theorem eval_compile_kleene {f : Filter} {e : Expr}
    (h : Gives (compile schema root vars f) d e d') (hd : d.parameters.Sequential) :
    (∀ binding, Covers d'.joins binding →
      ∃ (es : List Expr) (value : FilterLeaf → Truth),
        Gives (compileLeaves schema root vars f.leaves) d es d' ∧
        evalAll d'.parameters binding es =
          .ok (f.leaves.map fun leaf => (value leaf).toJson) ∧
        eval d'.parameters binding e = .ok (f.truth value).toJson) ∧
    ∀ g, f.Rewrites g →
      ∃ e', Gives (compile schema root vars g) d e' d' ∧
        ∀ bindings, (∀ binding ∈ bindings, Covers d'.joins binding) →
          ∃ kept, Tables.keep d'.parameters e bindings = .ok kept ∧
            Tables.keep d'.parameters e' bindings = .ok kept := by
  obtain ⟨es, leaves⟩ := (compile_iff_leaves f).1 ⟨e, h⟩
  constructor
  · intro binding covers
    have agrees := fun (leaf : FilterLeaf) (_ : leaf ∈ f.leaves) =>
      covers.agrees leaf.path.dropLast
    exact ⟨es, leafTruth schema root vars (choiceOf d'.joins binding), leaves,
      evalAll_compileLeaves leaves hd agrees, eval_compile h hd agrees⟩
  · -- A rewritten filter has the same leaves, so it compiles to the same draft.
    intro g rewrites
    rw [rewrites.leaves] at leaves
    obtain ⟨e', h'⟩ := (compile_iff_leaves g).2 ⟨es, leaves⟩
    refine ⟨e', h', fun bindings covers => ?_⟩
    let truth : Binding → Truth := fun binding =>
      meaning schema root vars (choiceOf d'.joins binding) f
    refine ⟨_, keep_of_truth truth fun binding hb => ?_,
      keep_of_truth truth fun binding hb => ?_⟩
    · exact eval_compile h hd fun leaf _ => (covers binding hb).agrees _
    · have same : truth binding = meaning schema root vars (choiceOf d'.joins binding) g :=
        rewrites.truth _
      rw [same]
      exact eval_compile h' hd fun leaf _ => (covers binding hb).agrees _

end Predicate

/-! ### A small library -/

namespace Sample

/-- Identifiers, which both entities have. -/
def id : SchemaField :=
  QuerySchema.scalarField ⟨"id", "id", .scalar "ID"⟩ (.plain "ID" "Built-in ID" .text)

/-- A field of text in the column of its name. -/
def text (name : String) : SchemaField :=
  QuerySchema.scalarField ⟨name, name, .scalar "String"⟩
    (.plain "String" "Built-in String" .text)

/-- The attributes of a book, a document. -/
def attributes : SchemaField :=
  QuerySchema.scalarField ⟨"attributes", "attributes", .scalar "Attributes"⟩
    (.document "Attributes" "Attributes of a book")

/-- Authors. -/
def author : EntityDescriptor :=
  ⟨"Author", some "authors", none, "authors", some "id",
    [id.descriptor, (text "name").descriptor,
     ⟨"books", "author_id", .toMany "Book" "author_id"⟩]⟩

/-- Books, each by at most one author. -/
def book : EntityDescriptor :=
  ⟨"Book", some "books", none, "books", some "id",
    [id.descriptor, (text "title").descriptor, attributes.descriptor,
     ⟨"author", "author_id", .toOne "Author" "author_id"⟩]⟩

/-- Authors in the schema. -/
def authors : EntityType :=
  ⟨author, "authors", criteriaTypeName "authors",
    [id, text "name",
     QuerySchema.associationField ⟨"books", "author_id", .toMany "Book" "author_id"⟩
       (.list "Book") book], id⟩

/-- Books in the schema. -/
def books : EntityType :=
  ⟨book, "books", criteriaTypeName "books",
    [id, text "title", attributes,
     QuerySchema.associationField ⟨"author", "author_id", .toOne "Author" "author_id"⟩
       (.object "Author") author], id⟩

/-- The ordinary scalars, and attributes. -/
def registry : ScalarRegistry :=
  ScalarRegistry.empty.register "Attributes" (.document "Attributes" "Attributes of a book")

/-- The schema of the library. -/
def schema : QuerySchema := ⟨"library", [authors, books], registry⟩

theorem schema_built : QuerySchema.build "library" [author, book] registry = .ok schema := rfl

/-- The title is `x`. -/
def titled : Filter := .leaf ⟨["title"], "EQ", .constant (.string "x")⟩

/-- The name of the author begins with `y`. -/
def byAuthor : Filter := .leaf ⟨["author", "name"], "LIKE", .constant (.string "y%")⟩

/-- A book called `x` without an author. -/
def binding : Store.Binding :=
  [("t0", some [("id", .string "1"), ("title", .string "x")]), ("t1", none)]

end Sample

open Predicate Planner Store in
/-- In the library, not both: it is unknown of a book with the title but
without an author, and rewriting it gives a condition too. -/
theorem eval_compile_kleene_library :
    ∃ e d', Gives (compile Sample.schema Sample.books [] (.not (.and [Sample.titled,
        Sample.byAuthor]))) Draft.empty e d' ∧
      (∃ value, eval d'.parameters Sample.binding e =
        .ok (Filter.truth value (.not (.and [Sample.titled, Sample.byAuthor]))).toJson) ∧
      eval d'.parameters Sample.binding e = .ok .null ∧
      ∃ e', Gives (compile Sample.schema Sample.books [] (.or [.not Sample.titled,
        .not Sample.byAuthor])) Draft.empty e' d' := by
  refine ⟨_, _, rfl, ?_⟩
  have compiled : Gives (compile Sample.schema Sample.books [] (.not (.and [Sample.titled,
      Sample.byAuthor]))) Draft.empty _ _ := rfl
  have kleene := eval_compile_kleene compiled rfl
  refine ⟨?_, rfl, ?_⟩
  · obtain ⟨es, value, -, -, truth⟩ := kleene.1 Sample.binding ⟨by decide, by decide⟩
    exact ⟨value, truth⟩
  · obtain ⟨e', h, -⟩ := kleene.2 _ (.notAnd [Sample.titled, Sample.byAuthor])
    exact ⟨e', h⟩

end EntityQuery
