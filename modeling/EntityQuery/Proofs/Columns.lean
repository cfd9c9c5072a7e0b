/-
EntityQuery/Proofs/Columns.lean

The columns of a plan, and the cells of its rows.

A column is called by the path and the field that it is for, with dots in
between.  As long as no name has a dot in it, different fields have different
columns (`columnName_injective`), so a column that is asked for twice is asked
for with the same expression.  Every column of a plan reads a field of the
entity at its path, in the table joined for the path (`Draft.Planned`), and
the cell of a row under its name is the cell of that field in the row chosen
for the path (`Tables.cell_resultOf`).
-/
import EntityQuery.Proofs.Rows
import EntityQuery.Response.Reshape

namespace EntityQuery

/-! ### Names of columns -/

/-- The name has no dot in it. -/
def Dotless (name : String) : Prop := '.' ∉ name.toList

instance (name : String) : Decidable (Dotless name) :=
  inferInstanceAs (Decidable ('.' ∉ name.toList))

namespace Selection

theorem columnName_eq (p : List String) (f : String) :
    columnName p f = ".".intercalate (p ++ [f]) := by
  simp only [columnName]
  cases p with
  | nil => simp
  | cons first rest =>
    rw [String.intercalate_append_of_ne_nil (List.cons_ne_nil _ _) (List.cons_ne_nil _ _)]
    simp

/-- Different fields have different columns. -/
theorem columnName_injective {p q : List String} {f g : String}
    (hp : ∀ n ∈ p ++ [f], Dotless n) (hq : ∀ n ∈ q ++ [g], Dotless n)
    (h : columnName p f = columnName q g) : p = q ∧ f = g := by
  -- Names without dots can be told apart again in the joined name.
  have parts : ∀ names : List String, names ≠ [] → (∀ n ∈ names, Dotless n) →
      (".".intercalate names).toList.splitOn '.' = names.map String.toList := by
    intro names some dotless
    rw [String.toList_intercalate]
    refine List.splitOn_intercalate '.' ?_ (by simpa using some)
    intro chars hc
    obtain ⟨n, hn, rfl⟩ := List.mem_map.1 hc
    exact dotless n hn
  rw [columnName_eq, columnName_eq] at h
  have same := congrArg (fun name => name.toList.splitOn '.') h
  rw [parts _ (by simp) hp, parts _ (by simp) hq] at same
  have names : p ++ [f] = q ++ [g] :=
    List.map_injective_iff.2 (fun _ _ e => String.toList_inj.1 e) same
  obtain ⟨paths, fields⟩ := List.append_inj' names rfl
  exact ⟨paths, List.singleton_inj.1 fields⟩

/-- A column without a dot in its name is one of the root. -/
theorem columnName_dotless {p : List String} {f g : String} (hg : Dotless g)
    (h : columnName p f = g) : p = [] ∧ f = g := by
  cases p with
  | nil => exact ⟨rfl, h⟩
  | cons first rest =>
    exfalso
    apply hg
    rw [← h]
    simp only [columnName]
    simp

end Selection

/-! ### Schemas -/

namespace QuerySchema

/-- The identifier of every entity is the field of its name, and the name is
of the given sort. -/
structure Identified (s : QuerySchema) (named : String → Prop) : Prop where
  field : ∀ e ∈ s.entities, e.field? e.idField.name = some e.idField
  names : ∀ e ∈ s.entities, named e.idField.name

theorem mem_of_entity? {s : QuerySchema} {name : String} {e : EntityType}
    (h : s.entity? name = some e) : e ∈ s.entities :=
  List.mem_of_find?_eq_some h

theorem mem_of_root? {s : QuerySchema} {name : String} {e : EntityType}
    (h : s.root? name = some e) : e ∈ s.entities :=
  List.mem_of_find?_eq_some h

/-- An entity that a path leads to belongs to the schema. -/
theorem mem_of_entityAt {s : QuerySchema} {root e : EntityType} {path : List String}
    (hr : root ∈ s.entities) (h : s.entityAt root path = some e) : e ∈ s.entities := by
  rcases List.eq_nil_or_concat path with rfl | ⟨p, a, rfl⟩
  · cases h
    exact hr
  · rw [List.concat_eq_append, entityAt_concat, associationAt_concat] at h
    obtain ⟨A, hA, rfl⟩ := Option.map_eq_some_iff.1 h
    obtain ⟨source, -, hA⟩ := Option.bind_eq_some_iff.1 hA
    obtain ⟨-, -, leads, -⟩ := (s.association?_eq_some).1 hA
    obtain ⟨name, -, target⟩ := Option.bind_eq_some_iff.1 leads
    exact mem_of_entity? target

end QuerySchema

/-! ### Columns of a plan -/

/-- The column reads a field of the entity at a path, under names of the given
sort. -/
inductive Column.Reads (s : QuerySchema) (root : EntityType) (named : String → Prop)
    (joins : Joins) : Column → Prop
  | mk {p : List String} {f a : String} {e : EntityType} {field : SchemaField}
      (entity : s.entityAt root p = some e) (found : e.field? f = some field)
      (joined : joins.aliasOf? p = some a) (names : ∀ n ∈ p ++ [f], named n) :
      Reads s root named joins ⟨.column a field.descriptor.column, Selection.columnName p f⟩

/-- A column reads what it reads when joins are added. -/
theorem Column.Reads.mono {s : QuerySchema} {root : EntityType} {named : String → Prop}
    {joins more : Joins} {c : Column} (h : joins <+: more) (reads : c.Reads s root named joins) :
    c.Reads s root named more := by
  obtain ⟨entity, found, joined, names⟩ := reads
  exact ⟨entity, found, Joins.aliasOf?_mono h joined, names⟩

/-- The key orders by a field of the entity at a path. -/
inductive OrderKey.Reads (s : QuerySchema) (root : EntityType) (joins : Joins) : OrderKey → Prop
  | mk {p : List String} {f a : String} {e : EntityType} {field : SchemaField}
      {direction : Direction} (entity : s.entityAt root p = some e)
      (found : e.field? f = some field) (joined : joins.aliasOf? p = some a) :
      Reads s root joins ⟨.column a field.descriptor.column, direction⟩

theorem OrderKey.Reads.mono {s : QuerySchema} {root : EntityType} {joins more : Joins}
    {k : OrderKey} (h : joins <+: more) (reads : k.Reads s root joins) : k.Reads s root more := by
  obtain ⟨entity, found, joined⟩ := reads
  exact ⟨entity, found, Joins.aliasOf?_mono h joined⟩

/-- What was asked for so far is what a plan asks for. -/
structure Draft.Planned (s : QuerySchema) (root : EntityType) (named : String → Prop)
    (d : Draft) : Prop where
  joins : Joins.Planned s root d.joins
  columns : ∀ c ∈ d.columns, c.Reads s root named d.joins
  distinct : (d.columns.map (·.name)).Nodup
  order : ∀ k ∈ d.order, k.Reads s root d.joins

namespace Planner

variable {s : QuerySchema} {root : EntityType} {named : String → Prop} {d d' : Draft}

theorem planned_empty : Draft.empty.Planned s root named :=
  ⟨.nil, fun _ hc => absurd hc List.not_mem_nil, List.nodup_nil,
    fun _ hk => absurd hk List.not_mem_nil⟩

/-- Asking for a field of the entity at a path that is joined. -/
theorem Gives.project {p : List String} {f a : String} {e : EntityType} {field : SchemaField}
    {u : Unit} (h : Gives (project (.column a field.descriptor.column) (Selection.columnName p f))
      d u d')
    (planned : d.Planned s root named) (entity : s.entityAt root p = some e)
    (found : e.field? f = some field) (joined : d.joins.aliasOf? p = some a)
    (names : ∀ n ∈ p ++ [f], named n) :
    d'.joins = d.joins ∧ d'.Planned s root named ∧
      ((∀ q g, (∀ n ∈ q ++ [g], named n) →
          Selection.columnName q g = Selection.columnName p f → q = p ∧ g = f) →
        ⟨.column a field.descriptor.column, Selection.columnName p f⟩ ∈ d'.columns) := by
  rw [gives_project.1 h]
  split
  · next asked =>
    refine ⟨rfl, planned, fun injective => ?_⟩
    obtain ⟨c, hc, same⟩ := List.any_eq_true.1 asked
    have same : c.name = Selection.columnName p f := by simpa using same
    have reads := planned.columns c hc
    -- The column of that name reads the same field, since it can read no other.
    cases reads with
    | @mk q g a' e' field' entity' found' joined' names' =>
      obtain ⟨rfl, rfl⟩ := injective q g names' same
      rw [entity] at entity'
      cases entity'
      rw [found] at found'
      cases found'
      rw [joined] at joined'
      cases joined'
      exact hc
  · next new =>
    refine ⟨rfl, ⟨planned.joins, ?_, ?_, planned.order⟩, fun _ => ?_⟩
    · intro c hc
      rcases List.mem_append.1 hc with hc | hc
      · exact planned.columns c hc
      · cases List.mem_singleton.1 hc
        exact ⟨entity, found, joined, names⟩
    · rw [List.map_append]
      refine planned.distinct.append (List.nodup_singleton _) ?_
      intro name hn hm
      obtain ⟨c, hc, rfl⟩ := List.mem_map.1 hn
      apply new
      exact List.any_eq_true.2 ⟨c, hc, by simpa using hm⟩
    · exact List.mem_append_right _ List.mem_cons_self

end Planner

/-! ### Requested fields -/

namespace Document.Field

mutual

/-- The field, and every field requested below it, is of the given sort. -/
def Throughout (P : Field → Prop) : Field → Prop
  | .mk label name arguments selection =>
    P (.mk label name arguments selection) ∧ AllThroughout P selection

/-- All the fields, and all fields requested below them, are of the given
sort. -/
def AllThroughout (P : Field → Prop) : List Field → Prop
  | [] => True
  | f :: fs => Throughout P f ∧ AllThroughout P fs

end

mutual

instance decidableThroughout (P : Field → Prop) [DecidablePred P] :
    (f : Field) → Decidable (Throughout P f)
  | .mk _ _ _ selection =>
    haveI := decidableAllThroughout P selection
    inferInstanceAs (Decidable (_ ∧ AllThroughout P selection))

instance decidableAllThroughout (P : Field → Prop) [DecidablePred P] :
    (fs : List Field) → Decidable (AllThroughout P fs)
  | [] => .isTrue trivial
  | f :: fs =>
    haveI := decidableThroughout P f
    haveI := decidableAllThroughout P fs
    inferInstanceAs (Decidable (Throughout P f ∧ AllThroughout P fs))

end

/-- What holds throughout fields holds throughout each of them. -/
theorem allThroughout_iff {P : Field → Prop} {fs : List Field} :
    AllThroughout P fs ↔ ∀ f ∈ fs, Throughout P f := by
  induction fs with
  | nil => exact ⟨fun _ f hf => absurd hf List.not_mem_nil, fun _ => trivial⟩
  | cons f fs ih => rw [AllThroughout, ih, List.forall_mem_cons]

theorem Throughout.below {P : Field → Prop} {f : Field} (h : f.Throughout P) :
    AllThroughout P f.selection := by
  cases f
  exact h.2

mutual

theorem throughout_of_forall {P : Field → Prop} (h : ∀ f, P f) : ∀ f : Field, Throughout P f
  | .mk _ _ _ selection => ⟨h _, allThroughout_of_forall h selection⟩

theorem allThroughout_of_forall {P : Field → Prop} (h : ∀ f, P f) :
    ∀ fs : List Field, AllThroughout P fs
  | [] => trivial
  | f :: fs => ⟨throughout_of_forall h f, allThroughout_of_forall h fs⟩

end

/-- Names of the given sort. -/
abbrev Named (named : String → Prop) (f : Field) : Prop := named f.name

/-- No order is asked for. -/
abbrev Unordered (f : Field) : Prop := f.argument? Selection.orderArgument = none

/-- The fields right below are answered under different names. -/
abbrev KeysDistinct (f : Field) : Prop := (f.selection.map responseKey).Nodup

end Document.Field

/-! ### Planning a selection -/

namespace Selection

/-- The selected fields are the requested ones, planned for the entity at a
path: every column they name is asked for, and reads what the field says. -/
inductive Mirrors (s : QuerySchema) (joins : Joins) (columns : List Column) :
    EntityType → List String → List Document.Field → List SelectedField → Prop
  | nil {e : EntityType} {p : List String} : Mirrors s joins columns e p [] []
  | scalar {e : EntityType} {p : List String} {label : Option String} {name a : String}
      {arguments : List (String × Document.Value)} {field : SchemaField} {b : ScalarBinding}
      {fs : List Document.Field} {gs : List SelectedField}
      (found : e.field? name = some field) (bound : field.binding = some b)
      (joined : joins.aliasOf? p = some a)
      (asked : ⟨.column a field.descriptor.column, columnName p name⟩ ∈ columns)
      (rest : Mirrors s joins columns e p fs gs) :
      Mirrors s joins columns e p (.mk label name arguments [] :: fs)
        (.scalar (label.getD name) (columnName p name) b :: gs)
  | association {e : EntityType} {p : List String} {label : Option String} {name a : String}
      {A : Association} {selection fs : List Document.Field} {fields gs : List SelectedField}
      (leads : s.association? e name = some A) (joined : joins.aliasOf? (p ++ [name]) = some a)
      (asked : ⟨.column a A.target.idColumn, columnName (p ++ [name]) A.target.idField.name⟩ ∈
        columns)
      (below : Mirrors s joins columns A.target (p ++ [name]) selection fields)
      (rest : Mirrors s joins columns e p fs gs) :
      Mirrors s joins columns e p (.mk label name [] selection :: fs)
        (.association (label.getD name) (cardinality A.field.descriptor)
          (.mk A.target.name (p ++ [name]) a
            (columnName (p ++ [name]) A.target.idField.name) fields) :: gs)

end Selection

namespace Planner

open Selection Document QuerySchema

variable {s : QuerySchema} {root : EntityType} {named : String → Prop} {d d' : Draft}
variable {vars : Variables}

/-- Order arguments add sort keys on their own column and nothing else. -/
theorem gives_orderArguments {field : String} {column : Expr}
    {arguments : List (String × Document.Value)} {u : Unit}
    (h : Gives (orderArguments vars field column arguments) d u d') :
    ∃ more, d' = { d with order := d.order ++ more } ∧ ∀ k ∈ more, k.expr = column := by
  induction arguments generalizing d with
  | nil =>
    obtain ⟨-, rfl⟩ := gives_pure.1 h
    refine ⟨[], ?_, fun k hk => absurd hk List.not_mem_nil⟩
    rw [List.append_nil]
  | cons argument rest ih =>
    obtain ⟨name, value⟩ := argument
    simp only [orderArguments] at h
    split at h
    · obtain ⟨u₁, d₁, h₁, -⟩ := gives_bind.1 h
      exact absurd h₁ gives_throw
    · obtain ⟨given, d₁, h₁, h⟩ := gives_bind.1 h
      obtain ⟨-, rfl⟩ := gives_lift.1 h₁
      obtain ⟨u₂, d₂, h₂, h⟩ := gives_bind.1 h
      obtain rfl := gives_orderBy.1 h₂
      obtain ⟨more, rfl, keys⟩ := ih h
      refine ⟨⟨column, given⟩ :: more, ?_, List.forall_mem_cons.2 ⟨rfl, keys⟩⟩
      simp

/-- Without an order argument no argument is left, since a scalar field takes
no other. -/
theorem gives_orderArguments_none {field : String} {column : Expr}
    {arguments : List (String × Document.Value)} {u : Unit}
    (h : Gives (orderArguments vars field column arguments) d u d')
    (none : arguments.lookup orderArgument = none) : d' = d := by
  cases arguments with
  | nil => exact (gives_pure.1 h).2.symm
  | cons argument rest =>
    obtain ⟨name, value⟩ := argument
    simp only [orderArguments] at h
    split at h
    · obtain ⟨_, _, h', -⟩ := gives_bind.1 h
      exact absurd h' gives_throw
    · next named =>
      rw [not_not] at named
      rw [named, List.lookup_cons_self] at none
      cases none

/-- Asking for an identifier keeps the shape of the plan; its column is asked
for if no other name could be mistaken for it. -/
theorem Gives.projectId {p : List String} {a name : String} {e : EntityType}
    (h : Gives (projectId e a p) d name d') (planned : d.Planned s root named)
    (entity : s.entityAt root p = some e) (identified : e.field? e.idField.name = some e.idField)
    (joined : d.joins.aliasOf? p = some a) (names : ∀ n ∈ p ++ [e.idField.name], named n) :
    name = columnName p e.idField.name ∧ d'.joins = d.joins ∧ d'.Planned s root named ∧
      ((∀ q g, (∀ n ∈ q ++ [g], named n) →
          columnName q g = columnName p e.idField.name → q = p ∧ g = e.idField.name) →
        ⟨.column a e.idColumn, columnName p e.idField.name⟩ ∈ d'.columns) := by
  obtain ⟨u, d₁, step, h⟩ := gives_bind.1 h
  obtain ⟨rfl, rfl⟩ := gives_pure.1 h
  exact ⟨rfl, step.project planned entity identified joined names⟩

/-- The steps of planning a scalar field. -/
theorem gives_planScalar {e : EntityType} {a : String} {p : List String} {field : SchemaField}
    {b : ScalarBinding} {requested : Document.Field} {g : SelectedField}
    (h : Gives (planScalar vars e a p field b requested) d g d') :
    requested.selection = [] ∧
      g = .scalar requested.responseKey (columnName p requested.name) b ∧
      ∃ u d₁ u', Gives (project (.column a field.descriptor.column)
        (columnName p requested.name)) d u d₁ ∧
        Gives (orderArguments vars requested.name (.column a field.descriptor.column)
          requested.arguments) d₁ u' d' := by
  simp only [planScalar] at h
  split at h
  case isFalse =>
    obtain ⟨u, d₁, h₁, -⟩ := gives_bind.1 h
    exact absurd h₁ gives_throw
  next leaf =>
  obtain ⟨u, d₁, asked, h⟩ := gives_bind.1 h
  obtain ⟨u', d₂, ordered, h⟩ := gives_bind.1 h
  obtain ⟨rfl, rfl⟩ := gives_pure.1 h
  exact ⟨List.isEmpty_iff.1 leaf, rfl, u, d₁, u', asked, ordered⟩

/-- An association has no arguments. -/
theorem gives_checkAssociation {e : EntityType} {requested : Document.Field}
    (h : checkAssociation e requested = .ok ()) : requested.arguments = [] := by
  simp only [checkAssociation] at h
  split at h
  · cases h
  · next none => exact none

theorem checkAssociation_selection {e : EntityType} {requested : Document.Field}
    (h : checkAssociation e requested = .ok ()) : requested.selection ≠ [] := by
  intro none
  simp only [checkAssociation] at h
  split at h
  · cases h
  · rw [none] at h
    cases h

/-- Planning a field is planning a scalar; or, for an association, joining its
target, planning what is requested of it, and asking for its identifier. -/
theorem planField_cases {e : EntityType} {a : String} {p : List String} {label : Option String}
    {name : String} {arguments : List (String × Document.Value)}
    {selection : List Document.Field} {g : SelectedField}
    (h : Gives (planField s vars e a p (.mk label name arguments selection)) d g d') :
    ∃ field, e.field? name = some field ∧
      ((∃ b, field.binding = some b ∧
        Gives (planScalar vars e a p field b (.mk label name arguments selection)) d g d') ∨
      (field.binding = none ∧ arguments = [] ∧ selection ≠ [] ∧
        ∃ next target fields id d₁ d₂,
          Gives (Planner.join s e a (p ++ [name]) field) d (next, target) d₁ ∧
          Gives (planFields s vars target next (p ++ [name]) selection) d₁ fields d₂ ∧
          Gives (projectId target next (p ++ [name])) d₂ id d' ∧
          g = .association (label.getD name) (cardinality field.descriptor)
            (.mk target.name (p ++ [name]) next id fields))) := by
  rw [planField] at h
  split at h
  case h_2 => exact absurd h gives_throw
  next field found =>
  refine ⟨field, found, ?_⟩
  dsimp only at h
  -- A field with a binding is a scalar; any other is an association, and planned
  -- with what is below it.
  split at h
  · next b bound => exact .inl ⟨b, bound, h⟩
  · next bound =>
    obtain ⟨u, d₀, step, h⟩ := gives_bind.1 h
    obtain ⟨checked, rfl⟩ := gives_lift.1 step
    obtain ⟨⟨next, target⟩, d₁, join, h⟩ := gives_bind.1 h
    obtain ⟨fields, d₂, below, h⟩ := gives_bind.1 h
    obtain ⟨id, d₃, asked, h⟩ := gives_bind.1 h
    obtain ⟨rfl, rfl⟩ := gives_pure.1 h
    exact .inr ⟨bound, gives_checkAssociation checked, checkAssociation_selection checked,
      next, target, fields, id, d₁, d₂, join, below, asked, rfl⟩

/-- Planning fields is planning one after the other. -/
theorem planFields_cons {e : EntityType} {a : String} {p : List String} {f : Document.Field}
    {fs : List Document.Field} {gs : List SelectedField}
    (h : Gives (planFields s vars e a p (f :: fs)) d gs d') :
    ∃ g others d₁, gs = g :: others ∧ Gives (planField s vars e a p f) d g d₁ ∧
      Gives (planFields s vars e a p fs) d₁ others d' := by
  rw [planFields] at h
  obtain ⟨g, d₁, first, h⟩ := gives_bind.1 h
  obtain ⟨others, d₂, rest, h⟩ := gives_bind.1 h
  obtain ⟨rfl, rfl⟩ := gives_pure.1 h
  exact ⟨g, others, d₁, rfl, first, rest⟩

/-- Joining an association keeps the shape of the plan. -/
theorem Gives.association {parent : EntityType} {a name : String} {p : List String}
    {field : SchemaField} {outcome : String × EntityType}
    (h : Gives (Planner.join s parent a (p ++ [name]) field) d outcome d')
    (planned : d.Planned s root named) (entity : s.entityAt root p = some parent)
    (joined : d.joins.aliasOf? p = some a) (found : parent.field? name = some field)
    (bound : field.binding = none) :
    s.association? parent name = some ⟨parent, field, outcome.2⟩ ∧
      d'.joins.aliasOf? (p ++ [name]) = some outcome.1 ∧ d'.Planned s root named := by
  obtain ⟨-, joined', keeps⟩ := h.join entity joined found bound
  have grown := grows_join _ _ _ _ _ _ _ _ h
  obtain ⟨target, joins, leads, added, rfl, rfl⟩ := gives_join.1 h
  exact ⟨(s.association?_eq_some).2 ⟨found, bound, leads, rfl⟩, joined', keeps planned.joins,
    fun c hc => (planned.columns c hc).mono grown.joins, planned.distinct,
    fun k hk => (planned.order k hk).mono grown.joins⟩

/-- A scalar field keeps the shape of the plan, and mirrors what is
requested if no name has a dot in it. -/
theorem Gives.planScalar {e : EntityType} {a : String} {p : List String} {field : SchemaField}
    {b : ScalarBinding} {label : Option String} {name : String}
    {arguments : List (String × Document.Value)} {selection : List Document.Field}
    {g : SelectedField}
    (h : Gives (planScalar vars e a p field b (.mk label name arguments selection)) d g d')
    (planned : d.Planned s root named) (entity : s.entityAt root p = some e)
    (found : e.field? name = some field) (bound : field.binding = some b)
    (joined : d.joins.aliasOf? p = some a) (names : ∀ n ∈ p ++ [name], named n) :
    d'.Planned s root named ∧
      ((∀ n, named n → Dotless n) → ∀ joins columns fs gs, d'.joins <+: joins →
        d'.columns <+: columns → Mirrors s joins columns e p fs gs →
          Mirrors s joins columns e p (.mk label name arguments selection :: fs) (g :: gs)) := by
  obtain ⟨leaf, rfl, u, d₁, u', asked, ordered⟩ := gives_planScalar h
  obtain ⟨more, rfl, keys⟩ := gives_orderArguments ordered
  obtain ⟨joins, planned', column⟩ := asked.project planned entity found joined names
  rw [← joins] at joined
  refine ⟨⟨planned'.joins, planned'.columns, planned'.distinct, fun k hk => ?_⟩, ?_⟩
  · rcases List.mem_append.1 hk with hk | hk
    · exact planned'.order k hk
    · -- A new key orders by the column that was just asked for.
      obtain ⟨expr, direction⟩ := k
      cases keys _ hk
      exact ⟨entity, found, joined⟩
  · intro dotless joins' columns fs gs hj hc rest
    cases (leaf : selection = [])
    have column := column fun q g hq same => columnName_injective
      (fun n hn => dotless n (hq n hn)) (fun n hn => dotless n (names n hn)) same
    exact .scalar found bound (Joins.aliasOf?_mono hj joined) (hc.subset column) rest

mutual

/-- Planning a field keeps the shape of the plan, and selects what mirrors the
field if no name has a dot in it. -/
theorem Gives.planField {e : EntityType} {a : String} {p : List String} {f : Document.Field}
    {g : SelectedField} {d d' : Draft} (h : Gives (planField s vars e a p f) d g d')
    (identified : s.Identified named) (hr : root ∈ s.entities)
    (planned : d.Planned s root named) (entity : s.entityAt root p = some e)
    (joined : d.joins.aliasOf? p = some a) (path : ∀ n ∈ p, named n)
    (names : f.Throughout (·.Named named)) :
    d'.Planned s root named ∧
      ((∀ n, named n → Dotless n) → ∀ joins columns fs gs, d'.joins <+: joins →
        d'.columns <+: columns → Mirrors s joins columns e p fs gs →
          Mirrors s joins columns e p (f :: fs) (g :: gs)) := by
  cases f with
  | mk label name arguments selection =>
  obtain ⟨name_ok, below_ok⟩ := names
  have path' : ∀ n ∈ p ++ [name], named n :=
    List.forall_mem_append.2 ⟨path, List.forall_mem_singleton.2 name_ok⟩
  obtain ⟨field, found, scalar | association⟩ := planField_cases h
  · obtain ⟨b, bound, h⟩ := scalar
    exact h.planScalar planned entity found bound joined path'
  · obtain ⟨bound, noArguments, -, next, target, fields, id, d₁, d₂, join, below, asked, rfl⟩ :=
      association
    -- The target is joined first,
    obtain ⟨leads, joined₁, planned₁⟩ := join.association planned entity joined found bound
    have target_at : s.entityAt root (p ++ [name]) = some target := by
      rw [s.entityAt_concat, s.associationAt_concat, entity, Option.bind_some, leads]
      rfl
    have mem := mem_of_entityAt hr target_at
    -- then the fields below are planned at the longer path,
    obtain ⟨planned₂, mirrors⟩ :=
      Gives.planFields below identified hr planned₁ target_at joined₁ path' below_ok
    have grown := Keeps.planFields cumulative_grows grows_join grows_project grows_orderBy
      _ _ _ _ _ _ _ _ _ below
    have joined₂ := Joins.aliasOf?_mono grown.joins joined₁
    -- and the identifier of the target comes last.
    have path'' : ∀ n ∈ p ++ [name] ++ [target.idField.name], named n :=
      List.forall_mem_append.2 ⟨path', List.forall_mem_singleton.2 (identified.names target mem)⟩
    obtain ⟨rfl, sameJoins, planned₃, column⟩ :=
      asked.projectId planned₂ target_at (identified.field target mem) joined₂ path''
    refine ⟨planned₃, fun dotless joins columns fs gs hj hc rest => ?_⟩
    have column := column fun q g hq same => columnName_injective
      (fun n hn => dotless n (hq n hn)) (fun n hn => dotless n (path'' n hn)) same
    have grown' := Keeps.projectId cumulative_grows grows_project _ _ _ _ _ _ asked
    rw [noArguments]
    exact .association leads (Joins.aliasOf?_mono (grown'.joins.trans hj) joined₂)
      (hc.subset column)
      (mirrors dotless joins columns (grown'.joins.trans hj) (grown'.columns.trans hc)) rest

/-- Planned fields keep a draft planned, and mirror what was asked for. -/
theorem Gives.planFields {e : EntityType} {a : String} {p : List String}
    {fs : List Document.Field} {gs : List SelectedField} {d d' : Draft}
    (h : Gives (planFields s vars e a p fs) d gs d')
    (identified : s.Identified named) (hr : root ∈ s.entities)
    (planned : d.Planned s root named) (entity : s.entityAt root p = some e)
    (joined : d.joins.aliasOf? p = some a) (path : ∀ n ∈ p, named n)
    (names : Document.Field.AllThroughout (·.Named named) fs) :
    d'.Planned s root named ∧
      ((∀ n, named n → Dotless n) → ∀ joins columns, d'.joins <+: joins →
        d'.columns <+: columns → Mirrors s joins columns e p fs gs) := by
  cases fs with
  | nil =>
    obtain ⟨rfl, rfl⟩ := gives_pure.1 h
    exact ⟨planned, fun _ _ _ _ _ => .nil⟩
  | cons f fs =>
    obtain ⟨first_ok, others_ok⟩ := names
    obtain ⟨g, gs, d₁, rfl, first, others⟩ := planFields_cons h
    -- What the first field left stays there while the others are planned.
    have grown := Keeps.planFields cumulative_grows grows_join grows_project grows_orderBy
      _ _ _ _ _ _ _ _ _ others
    have grown₁ := Keeps.planField cumulative_grows grows_join grows_project grows_orderBy
      _ _ _ _ _ _ _ _ _ first
    obtain ⟨planned₁, mirror⟩ :=
      Gives.planField first identified hr planned entity joined path first_ok
    have joined₁ := Joins.aliasOf?_mono grown₁.joins joined
    obtain ⟨planned₂, mirrors⟩ :=
      Gives.planFields others identified hr planned₁ entity joined₁ path others_ok
    refine ⟨planned₂, fun dotless joins columns hj hc => ?_⟩
    exact mirror dotless joins columns fs gs (grown.joins.trans hj) (grown.columns.trans hc)
      (mirrors dotless joins columns hj hc)

end

end Planner

/-! ### Cells of result rows -/

namespace Tables

open Store Joins

variable {s : QuerySchema} {root : EntityType} {named : String → Prop} {joins : Joins}
variable {columns : List Column} {binding : Binding}

/-- The row of a result for a binding. -/
def resultOf (columns : List Column) (binding : Binding) : Row :=
  columns.map fun c => (c.name, (eval [] binding c.expr).toOption.getD .null)

/-- A column has the value of the cell in the row that the binding chooses for
its path. -/
theorem eval_column (covers : Covers joins binding) {p : List String} {a : String}
    (joined : aliasOf? joins p = some a) (ps : Parameters) (name : String) :
    eval ps binding (.column a name) = .ok (cellOf (choiceOf joins binding p) name) :=
  columnValue_of_find? (covers.agrees p a joined) name

/-- A planned query has a row for every binding that covers its joins. -/
theorem resultRow_eq (reads : ∀ c ∈ columns, c.Reads s root named joins)
    (distinct : (columns.map (·.name)).Nodup) (covers : Covers joins binding) (ps : Parameters) :
    resultRow ps columns binding = .ok (resultOf columns binding) := by
  have cells : columns.mapM (fun column => do
      return (column.name, ← eval ps binding column.expr)) = .ok (resultOf columns binding) := by
    refine Outcome.mapM_ok fun c hc => ?_
    obtain ⟨entity, found, joined, names⟩ := reads c hc
    rw [eval_column covers joined ps, eval_column covers joined []]
    rfl
  simp only [resultRow]
  rw [cells, Outcome.ok_bind]
  have nodup : (Keyed.keys (resultOf columns binding)).Nodup := by
    simp only [resultOf, Keyed.keys]
    rw [List.map_map]
    exact distinct
  exact congrArg Except.ok (Keyed.ofPairs_eq_self nodup)

/-- Under the name of a column, the row has the cell that the column reads. -/
theorem cell_resultOf (distinct : (columns.map (·.name)).Nodup) (covers : Covers joins binding)
    {p : List String} {a name column : String} (asked : ⟨.column a column, name⟩ ∈ columns)
    (joined : aliasOf? joins p = some a) :
    Reshape.cell (resultOf columns binding) name =
      cellOf (choiceOf joins binding p) column := by
  -- Columns have different names, so that the cell found under a name is the one put there.
  have nodup : (Keyed.keys (resultOf columns binding)).Nodup := by
    simp only [resultOf, Keyed.keys]
    rw [List.map_map]
    exact distinct
  have pair : (name, cellOf (choiceOf joins binding p) column) ∈ resultOf columns binding := by
    refine List.mem_map.2 ⟨_, asked, ?_⟩
    rw [eval_column covers joined []]
    rfl
  simp only [Reshape.cell]
  rw [Keyed.find?_of_mem nodup pair]
  rfl

end Tables

end EntityQuery
