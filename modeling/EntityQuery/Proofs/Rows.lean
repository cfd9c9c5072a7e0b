/-
EntityQuery/Proofs/Rows.lean

The rows that joins put together.

An association links a row to the rows of its target whose columns meet
(`Association.partners`); where there are none, a left join goes on with no
row at all (`Association.options`).  Running the joins of a plan on a row of
the root gives every way of following them (`Tables.spread`), one option of
each join after another.

Two things follow, in the order in which joins are added.  Every binding that
comes out is a consistent choice of rows, each an option for the row before it
(`consistent_of_mem_spread`); and every consistent choice along some of the
paths is made by a binding that comes out (`exists_mem_spread`), since a left
join always has an option.
-/
import EntityQuery.Proofs.Meaning
import EntityQuery.Store.Tables

namespace EntityQuery

open Store

/-! ### Linked rows -/

namespace Store

/-- Whether two cells are there and equal. -/
def meets (l r : Json) : Bool := !l.isNull && !r.isNull && isEqual l r

theorem isTrue_comparison_equal (l r : Json) :
    isTrue (comparison .equal l r) = meets l r := by
  simp only [comparison, meets, isEqual]
  cases l.isNull <;> cases r.isNull <;> rfl

end Store

namespace Association

variable (A : Association) (tables : Tables)

/-- Whether the association leads from a row of the source to a row of the
target. -/
def links (source : Option Row) (row : Row) : Bool :=
  match A.field.descriptor.kind with
  | .toOne _ joinColumn => meets (cellOf source joinColumn) (cellOf (some row) A.target.idColumn)
  | .toMany _ mappedBy => meets (cellOf (some row) mappedBy) (cellOf source A.source.idColumn)
  | .scalar _ => false

/-- The rows that the association leads to, in the order of their table. -/
def partners (source : Option Row) : List Row :=
  (tables.rowsOf A.target.descriptor.qualifiedTable).filter (A.links source)

/-- The rows to go on with: the partners, or no row if there are none. -/
def options (source : Option Row) : List (Option Row) :=
  if (A.partners tables source).isEmpty then [none] else (A.partners tables source).map some

theorem options_ne_nil (source : Option Row) : A.options tables source ≠ [] := by
  simp only [options]
  split
  · exact List.cons_ne_nil _ _
  · next some => simpa using some

end Association

/-! ### One join -/

namespace Joins

/-- The binding has the root and these joins, in order. -/
def Spans (joins : Joins) (binding : Binding) : Prop :=
  Keyed.keys binding = rootAlias :: joins.map (·.tableAlias)

theorem Spans.covers {joins : Joins} {binding : Binding} (h : Spans joins binding) :
    Covers joins binding := by
  simp only [Covers]
  rw [h]
  exact ⟨List.mem_cons_self, fun j hj => List.mem_cons_of_mem _ (List.mem_map_of_mem hj)⟩

theorem Spans.concat {joins : Joins} {binding : Binding} (h : Spans joins binding) (j : Join)
    (row : Option Row) : Spans (joins ++ [j]) (binding ++ [(j.tableAlias, row)]) := by
  simp only [Spans, Keyed.keys] at h ⊢
  rw [List.map_append, h, List.map_append]
  rfl

theorem nextAlias_not_mem {joins : Joins} (h : joins.Numbered) {binding : Binding}
    (spans : Spans joins binding) : nextAlias joins ∉ Keyed.keys binding := by
  rw [spans, h.aliases, List.mem_cons, not_or]
  constructor
  · exact aliasAt_ne_root joins.length
  · intro hm
    obtain ⟨i, hi, e⟩ := List.mem_map.1 hm
    have : i = joins.length := aliasAt_injective e
    rw [List.mem_range] at hi
    omega

end Joins

namespace Tables

open Joins

/-- Where the condition of a join has a value at every row, the rows that match
are those at which it is true. -/
theorem matching_eq {ps : Parameters} {tableAlias : String} {condition : Expr}
    {binding : Binding} (rows : List Row) {value : Row → Json}
    (h : ∀ row, eval ps (Keyed.put tableAlias (some row) binding) condition = .ok (value row)) :
    matching ps tableAlias condition binding rows =
      .ok ((rows.filter fun row => isTrue (value row)).map fun row =>
        Keyed.put tableAlias (some row) binding) := by
  induction rows with
  | nil => rfl
  | cons row rows ih =>
    rw [matching, h, Outcome.ok_bind, ih, Outcome.ok_bind, List.filter_cons]
    cases isTrue (value row) <;> rfl

variable {s : QuerySchema} {root : EntityType} (tables : Tables)

/-- The condition of a join is true where its association leads. -/
theorem eval_sides {A : Association} {parent own : String} {left right : Expr}
    (sides : sides? A.field.descriptor parent A.source.idColumn own A.target.idColumn =
      some (left, right))
    {binding : Binding} {source : Option Row} {row : Row}
    (parentRow : Keyed.find? binding parent = some source)
    (ownRow : Keyed.find? binding own = some (some row)) (ps : Parameters) :
    ∃ v, eval ps binding (.apply .equal [left, right]) = .ok v ∧
      isTrue v = A.links source row := by
  -- The column of the source meets that of the target, on the side on which the association says.
  cases kind : A.field.descriptor.kind with
  | scalar valueClass =>
    simp only [sides?, kind] at sides
    cases sides
  | toOne target joinColumn =>
    simp only [sides?, kind, Option.some.injEq, Prod.mk.injEq] at sides
    obtain ⟨rfl, rfl⟩ := sides
    refine ⟨_, eval_binary (columnValue_of_find? parentRow _) (columnValue_of_find? ownRow _), ?_⟩
    simp only [Association.links, kind]
    exact isTrue_comparison_equal _ _
  | toMany target mappedBy =>
    simp only [sides?, kind, Option.some.injEq, Prod.mk.injEq] at sides
    obtain ⟨rfl, rfl⟩ := sides
    refine ⟨_, eval_binary (columnValue_of_find? ownRow _) (columnValue_of_find? parentRow _), ?_⟩
    simp only [Association.links, kind]
    exact isTrue_comparison_equal _ _

/-- A join of a plan goes on with the options of its association. -/
theorem extend_eq {joins : Joins} {j : Join} (numbered : joins.Numbered)
    (follows : Follows s root joins j) {binding : Binding} (spans : Spans joins binding)
    (ps : Parameters) :
    ∃ A, s.associationAt root j.path = some A ∧
      tables.extend ps j binding =
        .ok ((A.options tables (choiceOf joins binding j.path.dropLast)).map fun row =>
          binding ++ [(j.tableAlias, row)]) := by
  cases follows with
  | @mk p a parent A left right association joined sides =>
  refine ⟨A, association, ?_⟩
  dsimp only
  rw [List.dropLast_concat]
  have fresh := nextAlias_not_mem numbered spans
  have source := spans.covers.agrees p parent joined
  have put : ∀ row, Keyed.put (nextAlias joins) row binding =
      binding ++ [(nextAlias joins, row)] := fun row => Keyed.put_of_not_mem row fresh
  -- The condition is evaluated with the new row filed behind the others.
  have value : ∀ row, ∃ v, eval ps (Keyed.put (nextAlias joins) (some row) binding)
      (.apply .equal [left, right]) = .ok v ∧
        isTrue v = A.links (choiceOf joins binding p) row := by
    intro row
    rw [put]
    have parentRow : Keyed.find? (binding ++ [(nextAlias joins, some row)]) parent =
        some (choiceOf joins binding p) :=
      Keyed.find?_mono (List.prefix_append _ _) source
    have ownRow : Keyed.find? (binding ++ [(nextAlias joins, some row)]) (nextAlias joins) =
        some (some row) := Keyed.find?_append_new _ fresh
    exact eval_sides sides parentRow ownRow ps
  choose value evaluates links using value
  have found := matching_eq (tables.rowsOf A.target.descriptor.qualifiedTable) evaluates
  simp only [links, put] at found
  simp only [extend, Join.condition, found, Outcome.ok_bind, put]
  unfold Association.options Association.partners
  rw [List.isEmpty_map]
  split
  · -- Nothing is found: a left join goes on without a row.
    next none =>
    have noRows := (Bool.and_eq_true _ _ ▸ none).1
    simp only [noRows, if_true]
    rfl
  · next some =>
    have rows : ¬ (List.filter (A.links (choiceOf joins binding p))
        (tables.rowsOf A.target.descriptor.qualifiedTable)).isEmpty = true := by
      intro empty
      exact some (by rw [empty]; rfl)
    rw [if_neg rows, List.map_map]
    rfl

/-- The ways of going on from a binding with a join. -/
def step (j : Join) (binding : Binding) : List Binding :=
  (tables.extend [] j binding).toOption.getD []

/-- The ways of going on from a binding with one join after another. -/
def spread : Joins → Binding → List Binding
  | [], binding => [binding]
  | j :: joins, binding => (step tables j binding).flatMap (spread joins)

/-- Spreading along joins is spreading along the first and then along the
others. -/
theorem spread_append (before after : Joins) (binding : Binding) :
    tables.spread (before ++ after) binding =
      (tables.spread before binding).flatMap (tables.spread after) := by
  induction before generalizing binding with
  | nil => simp [spread]
  | cons j before ih =>
    rw [List.cons_append, spread, spread, List.flatMap_assoc]
    exact congrArg (List.flatMap · _) (funext ih)

theorem spread_concat (joins : Joins) (j : Join) (binding : Binding) :
    tables.spread (joins ++ [j]) binding =
      (tables.spread joins binding).flatMap (step tables j) := by
  rw [spread_append]
  refine congrArg (List.flatMap · _) (funext fun b => ?_)
  simp [spread]

/-- The options of a join, by the path of the join. -/
theorem step_eq {joins : Joins} {j : Join} (numbered : joins.Numbered)
    (follows : Follows s root joins j) {binding : Binding} (spans : Spans joins binding) :
    ∃ A, s.associationAt root j.path = some A ∧
      tables.step j binding =
        (A.options tables (choiceOf joins binding j.path.dropLast)).map fun row =>
          binding ++ [(j.tableAlias, row)] := by
  obtain ⟨A, association, extended⟩ := tables.extend_eq numbered follows spans []
  refine ⟨A, association, ?_⟩
  simp only [step]
  rw [extended]
  rfl

/-- A planned join extends a binding to the rows that its association leads to.
-/
theorem extend_eq_step {joins : Joins} {j : Join} (numbered : joins.Numbered)
    (follows : Follows s root joins j) {binding : Binding} (spans : Spans joins binding)
    (ps : Parameters) : tables.extend ps j binding = .ok (tables.step j binding) := by
  obtain ⟨A, association, extended⟩ := tables.extend_eq numbered follows spans ps
  obtain ⟨A', association', stepped⟩ := tables.step_eq numbered follows spans
  rw [association] at association'
  cases association'
  rw [extended, stepped]

/-- A join binds its alias, to some row or none, behind what was bound before.
-/
theorem spans_of_mem_step {joins : Joins} {j : Join} (numbered : joins.Numbered)
    (follows : Follows s root joins j) {binding more : Binding} (spans : Spans joins binding)
    (h : more ∈ tables.step j binding) :
    ∃ row, more = binding ++ [(j.tableAlias, row)] ∧ Spans (joins ++ [j]) more := by
  obtain ⟨A, -, stepped⟩ := tables.step_eq numbered follows spans
  rw [stepped] at h
  obtain ⟨row, -, rfl⟩ := List.mem_map.1 h
  exact ⟨row, rfl, spans.concat j row⟩

/-! ### All joins -/

/-- Running the joins of a plan spreads every binding. -/
theorem joinAll_eq (ps : Parameters) {before joins : Joins}
    (planned : Planned s root (before ++ joins)) {bindings : List Binding}
    (spans : ∀ binding ∈ bindings, Spans before binding) :
    tables.joinAll ps bindings joins = .ok (bindings.flatMap (tables.spread joins)) := by
  -- The joins that have been run so far are the first part of the plan.
  induction joins generalizing before bindings with
  | nil =>
    show Except.ok bindings = .ok (bindings.flatMap fun binding => [binding])
    simp
  | cons j joins ih =>
    obtain ⟨earlier, -, follows⟩ := planned.follows rfl
    have extended : bindings.mapM (tables.extend ps j) = .ok (bindings.map (tables.step j)) :=
      Outcome.mapM_ok fun binding hb =>
        tables.extend_eq_step earlier.numbered follows (spans binding hb) ps
    rw [List.append_cons] at planned
    have further : ∀ more ∈ (bindings.map (tables.step j)).flatten, Spans (before ++ [j]) more := by
      intro more hm
      rw [← List.flatMap_def] at hm
      obtain ⟨binding, hb, hm⟩ := List.mem_flatMap.1 hm
      obtain ⟨row, -, spans'⟩ :=
        tables.spans_of_mem_step earlier.numbered follows (spans binding hb) hm
      exact spans'
    rw [joinAll, extended, Outcome.ok_bind, ih planned further, ← List.flatMap_def,
      List.flatMap_assoc]
    rfl

/-- What comes out has all the joins, and begins with what went in. -/
theorem spans_of_mem_spread {before joins : Joins} (planned : Planned s root (before ++ joins))
    {binding more : Binding} (spans : Spans before binding)
    (h : more ∈ tables.spread joins binding) :
    Spans (before ++ joins) more ∧ binding <+: more := by
  -- Along the joins, with the aliases bound so far as the invariant.
  induction joins generalizing before binding with
  | nil =>
    cases List.mem_singleton.1 h
    rw [List.append_nil]
    exact ⟨spans, List.prefix_rfl⟩
  | cons j joins ih =>
    obtain ⟨earlier, -, follows⟩ := planned.follows rfl
    obtain ⟨next, hn, h⟩ := List.mem_flatMap.1 h
    obtain ⟨row, rfl, spans'⟩ := tables.spans_of_mem_step earlier.numbered follows spans hn
    rw [List.append_cons] at planned ⊢
    obtain ⟨all, grown⟩ := ih planned spans' h
    exact ⟨all, (List.prefix_append _ _).trans grown⟩

/-- Something always comes out. -/
theorem spread_ne_nil {before joins : Joins} (planned : Planned s root (before ++ joins))
    {binding : Binding} (spans : Spans before binding) : tables.spread joins binding ≠ [] := by
  induction joins generalizing before binding with
  | nil => exact List.cons_ne_nil _ _
  | cons j joins ih =>
    obtain ⟨earlier, -, follows⟩ := planned.follows rfl
    obtain ⟨A, -, stepped⟩ := tables.step_eq earlier.numbered follows spans
    -- Where no row is linked, the join goes on without one.
    obtain ⟨row, hr⟩ := List.exists_mem_of_ne_nil _
      (A.options_ne_nil tables (choiceOf before binding j.path.dropLast))
    have next : binding ++ [(j.tableAlias, row)] ∈ tables.step j binding := by
      rw [stepped]
      exact List.mem_map_of_mem hr
    obtain ⟨row', -, spans'⟩ := tables.spans_of_mem_step earlier.numbered follows spans next
    rw [List.append_cons] at planned
    obtain ⟨more, hm⟩ := List.exists_mem_of_ne_nil _ (ih planned spans')
    exact List.ne_nil_of_mem (List.mem_flatMap.2 ⟨_, next, hm⟩)

end Tables

namespace Joins

/-- The row chosen for a path stays the same when joins and rows are added. -/
theorem choiceOf_mono {joins more : Joins} {binding longer : Binding} {path : List String}
    {a : String} (joined : aliasOf? joins path = some a) (hj : joins <+: more)
    (covers : Covers joins binding) (hb : binding <+: longer) :
    choiceOf more longer path = choiceOf joins binding path := by
  have found := covers.agrees path a joined
  have later := Keyed.find?_mono hb found
  simp only [choiceOf] at later ⊢
  rw [aliasOf?_mono hj joined, Option.bind_some, later, joined]
  rfl

theorem choiceOf_last {joins : Joins} {binding : Binding} {j : Join} {row : Option Row}
    (joined : aliasOf? (joins ++ [j]) j.path = some j.tableAlias)
    (fresh : j.tableAlias ∉ Keyed.keys binding) :
    choiceOf (joins ++ [j]) (binding ++ [(j.tableAlias, row)]) j.path = row := by
  simp only [choiceOf]
  rw [joined, Option.bind_some, Keyed.find?_append_new row fresh]
  rfl

theorem spans_root (row : Option Row) : Spans [] [(rootAlias, row)] := rfl

theorem choiceOf_root (joins : Joins) (row : Option Row) :
    choiceOf joins [(rootAlias, row)] [] = row := by
  simp only [choiceOf]
  rw [aliasOf?_nil, Option.bind_some, Keyed.find?_cons, if_pos rfl]
  rfl

end Joins

namespace Tables

open Joins

variable {s : QuerySchema} {root : EntityType} {tables : Tables} {joins : Joins}

/-- Whatever is joined, the root keeps the row that it was given. -/
theorem choiceOf_root_of_mem_spread (planned : Planned s root joins) {row : Row}
    {binding : Binding} (h : binding ∈ tables.spread joins [(rootAlias, some row)]) :
    choiceOf joins binding [] = some row := by
  obtain ⟨-, grown⟩ := tables.spans_of_mem_spread planned (spans_root (some row)) h
  have first : choiceOf [] [(rootAlias, some row)] [] = some row := choiceOf_root [] (some row)
  rw [← first]
  exact choiceOf_mono (aliasOf?_nil []) List.nil_prefix (spans_root _).covers grown

/-- No row of the root is lost by joining. -/
theorem spread_root_ne_nil (planned : Planned s root joins) (row : Row) :
    tables.spread joins [(rootAlias, some row)] ≠ [] :=
  tables.spread_ne_nil planned (spans_root (some row))

end Tables

/-! ### Consistent choices -/

/-- The row chosen for a path is an option for the row chosen before it. -/
def Choice.Consistent (s : QuerySchema) (root : EntityType) (tables : Tables) (choice : Choice)
    (path : List String) : Prop :=
  ∃ A, s.associationAt root path = some A ∧
    choice path ∈ A.options tables (choice path.dropLast)

namespace Tables

open Joins

variable {s : QuerySchema} {root : EntityType} {tables : Tables}

/-- What comes out of the joins of a plan is consistent at all of them. -/
theorem consistent_of_mem_spread {joins : Joins} (planned : Planned s root joins)
    {binding more : Binding} (spans : Spans [] binding) (h : more ∈ tables.spread joins binding) :
    ∀ j ∈ joins, (choiceOf joins more).Consistent s root tables j.path := by
  induction planned generalizing more with
  | nil => exact fun j hj => absurd hj List.not_mem_nil
  | @concat joins last planned new follows ih =>
    have planned' : Planned s root (joins ++ [last]) := .concat planned new follows
    rw [spread_concat] at h
    obtain ⟨mid, hm, h⟩ := List.mem_flatMap.1 h
    obtain ⟨spans', -⟩ := tables.spans_of_mem_spread planned spans hm
    rw [List.nil_append] at spans'
    obtain ⟨A, association, stepped⟩ := tables.step_eq planned.numbered follows spans'
    rw [stepped] at h
    obtain ⟨row, hr, rfl⟩ := List.mem_map.1 h
    have stays : ∀ path a, aliasOf? joins path = some a →
        choiceOf (joins ++ [last]) (mid ++ [(last.tableAlias, row)]) path =
          choiceOf joins mid path := fun path a joined =>
      choiceOf_mono joined (List.prefix_append _ _) spans'.covers (List.prefix_append _ _)
    intro j hj
    rcases List.mem_append.1 hj with hj | hj
    · -- An earlier join chose its row before the last one was run.
      obtain ⟨A', association', option⟩ := ih hm j hj
      obtain ⟨own, a, parent⟩ := planned.aliases hj
      refine ⟨A', association', ?_⟩
      rw [stays _ _ own, stays _ _ parent]
      exact option
    · cases List.mem_singleton.1 hj
      have joined := (planned'.aliases (List.mem_append_right _ List.mem_cons_self)).1
      have fresh : last.tableAlias ∉ Keyed.keys mid := by
        rw [follows.tableAlias]
        exact nextAlias_not_mem planned.numbered spans'
      obtain ⟨a, parent⟩ := follows.parent
      refine ⟨A, association, ?_⟩
      rw [choiceOf_last joined fresh, stays _ _ parent]
      exact hr

/-- A choice that is consistent along some of the paths is made by something
that comes out. -/
theorem exists_mem_spread {joins : Joins} (planned : Planned s root joins) {choice : Choice}
    {along : List String → Prop}
    (consistent : ∀ path, along path → path ≠ [] →
      choice.Consistent s root tables path ∧ along path.dropLast) :
    ∃ more ∈ tables.spread joins [(rootAlias, choice [])],
      ∀ path a, along path → aliasOf? joins path = some a →
        choiceOf joins more path = choice path := by
  induction planned with
  | nil =>
    refine ⟨_, List.mem_singleton.2 rfl, fun path a _ joined => ?_⟩
    cases path with
    | nil => exact choiceOf_root [] _
    | cons first rest => cases joined
  | @concat joins last planned new follows ih =>
    have planned' : Planned s root (joins ++ [last]) := .concat planned new follows
    obtain ⟨mid, hm, agrees⟩ := ih
    obtain ⟨spans', -⟩ := tables.spans_of_mem_spread planned (spans_root (choice [])) hm
    rw [List.nil_append] at spans'
    obtain ⟨A, association, stepped⟩ := tables.step_eq planned.numbered follows spans'
    obtain ⟨parent, parentJoined⟩ := follows.parent
    -- Where the choice says nothing about the new path, any option will do.
    obtain ⟨row, option, chosen⟩ : ∃ row ∈ A.options tables
        (choiceOf joins mid last.path.dropLast), along last.path → row = choice last.path := by
      by_cases ha : along last.path
      · have nonempty : last.path ≠ [] := by
          cases follows
          simp
        obtain ⟨⟨A', association', option⟩, above⟩ := consistent _ ha nonempty
        rw [association] at association'
        cases association'
        rw [agrees _ parent above parentJoined]
        exact ⟨_, option, fun _ => rfl⟩
      · obtain ⟨row, hr⟩ := List.exists_mem_of_ne_nil _
          (A.options_ne_nil tables (choiceOf joins mid last.path.dropLast))
        exact ⟨row, hr, fun h => absurd h ha⟩
    -- Adding it changes nothing at the earlier paths.
    refine ⟨mid ++ [(last.tableAlias, row)], ?_, fun path a ha joined => ?_⟩
    · rw [spread_concat]
      refine List.mem_flatMap.2 ⟨mid, hm, ?_⟩
      rw [stepped]
      exact List.mem_map_of_mem option
    · rcases aliasOf?_append_singleton joined with earlier | rfl
      · rw [choiceOf_mono earlier (List.prefix_append _ _) spans'.covers
          (List.prefix_append _ _)]
        exact agrees path a ha earlier
      · have fresh : last.tableAlias ∉ Keyed.keys mid := by
          rw [follows.tableAlias]
          exact nextAlias_not_mem planned.numbered spans'
        have own := (planned'.aliases (List.mem_append_right _ List.mem_cons_self)).1
        rw [choiceOf_last own fresh]
        exact chosen ha

end Tables

end EntityQuery
