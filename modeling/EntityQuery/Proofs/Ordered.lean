/-
EntityQuery/Proofs/Ordered.lean

Queries with an order and a limit, and criteria in another order.

A query sorts its bindings by the values of its sort keys and answers a row
for each, up to its limit.  All this looks at the sort keys and the rows alone
(`Tables.run_eq_arranged`), so it is the same for any bindings with the same
keys and rows in the same places.

The columns and the sort keys of a planned query belong to its selection.  A
binding for the joins of the selection may be extended in several ways by the
joins of the filter, and it is answered as often as the filter keeps an
extension (`Planning.map_answer_kept`).  Criteria in another order join the
same paths in another order, which makes the same choices, and a filter of the
same sense keeps the same of them.  So the rows are the same one by one
(`Planning.run_reordered`).
-/
import EntityQuery.Proofs.Admissible
import EntityQuery.Proofs.Exchange
import EntityQuery.Proofs.Joined
import EntityQuery.Proofs.Reordering
import EntityQuery.Proofs.Scope

namespace EntityQuery

open Store

/-! ### Answers -/

/-- The query with a limit in place of its own. -/
def Query.limitedTo (q : Query) (limit : Option Nat) : Query := { q with limit := limit }

namespace Tables

/-- The values of the sort keys of a binding. -/
def sortKeys (order : List OrderKey) (binding : Binding) : List Json :=
  order.map fun key => (eval [] binding key.expr).toOption.getD .null

/-- Things with sort keys, in the order of a query. -/
def byKeys [Disorder] {α : Type} (order : List OrderKey) (xs : List (List Json × α)) :
    List (List Json × α) :=
  if order.isEmpty then xs else arrange (precedes order) xs

/-- The first things of a list, up to a limit if there is one. -/
def cutOff {α : Type} (limit : Option Nat) (xs : List α) : List α :=
  match limit with
  | some limit => xs.take limit
  | none => xs

/-- The rows of answers with sort keys, sorted and cut off at a limit. -/
def arranged [Disorder] (order : List OrderKey) (limit : Option Nat)
    (answers : List (List Json × Row)) : List Row :=
  (cutOff limit (byKeys order answers)).map (·.2)

/-- The sort keys of a binding, and its row. -/
def answer (order : List OrderKey) (columns : List Column) (binding : Binding) :
    List Json × Row :=
  (sortKeys order binding, resultOf columns binding)

section Arranged

variable {α β : Type} {order : List OrderKey}

/-- What is sorted beside the keys does not matter. -/
theorem byKeys_map [Disorder] (f : α → β) (xs : List (List Json × α)) :
    byKeys order (xs.map fun x => (x.1, f x.2)) =
      (byKeys order xs).map fun x => (x.1, f x.2) := by
  unfold byKeys
  split
  · rfl
  · exact arrange_map _ _ xs

/-- Sorting by no keys is no exception. -/
theorem byKeys_eq [Disorder] (order : List OrderKey) (xs : List (List Json × α)) :
    byKeys order xs = arrange (precedes order) xs := by
  unfold byKeys
  split
  · next unordered =>
    rw [List.isEmpty_iff.1 unordered]
    exact (arrange_never xs).symm
  · rfl

/-- Sorting leaves what there was. -/
theorem mem_byKeys [Disorder] {xs : List (List Json × α)} {x : List Json × α} :
    x ∈ byKeys order xs ↔ x ∈ xs := by
  unfold byKeys
  split
  · exact Iff.rfl
  · exact (arrange_perm _ _).mem_iff

/-- Cutting off goes by places alone. -/
theorem cutOff_map (limit : Option Nat) (f : α → β) (xs : List α) :
    cutOff limit (xs.map f) = (cutOff limit xs).map f := by
  cases limit with
  | none => rfl
  | some limit => exact List.map_take.symm

theorem cutOff_subset (limit : Option Nat) (xs : List α) : cutOff limit xs ⊆ xs := by
  cases limit with
  | none => exact List.Subset.refl _
  | some limit => exact List.take_subset _ _

end Arranged

variable {tables : Tables} {q : Query} {rows : List Row} {joined kept : List Binding}

/-- Bindings with the values of their sort keys. -/
theorem keyed_eq {ps : Parameters} {order : List OrderKey}
    (keys : ∀ binding ∈ kept, ∀ key ∈ order, eval ps binding key.expr =
      .ok ((eval [] binding key.expr).toOption.getD .null)) :
    keyed ps order kept = .ok (kept.map fun binding => (sortKeys order binding, binding)) := by
  refine Outcome.mapM_ok fun binding hb => ?_
  rw [Outcome.mapM_ok (keys binding hb)]
  rfl

/-- Bindings whose sort keys have values are sorted by them. -/
theorem sorted_eq [Disorder] {ps : Parameters} {order : List OrderKey}
    (keys : ∀ binding ∈ kept, ∀ key ∈ order, eval ps binding key.expr =
      .ok ((eval [] binding key.expr).toOption.getD .null)) :
    sorted ps order kept =
      .ok ((byKeys order (kept.map fun binding => (sortKeys order binding, binding))).map
        (·.2)) := by
  simp only [sorted, byKeys]
  split
  · rw [List.map_map]
    exact congrArg Except.ok (List.map_id kept).symm
  · rw [keyed_eq keys]
    rfl

/-- The answers of bindings are made of their sort keys and themselves. -/
theorem map_answer {order : List OrderKey} {columns : List Column} (kept : List Binding) :
    kept.map (answer order columns) =
      (kept.map fun binding => (sortKeys order binding, binding)).map
        fun x => (x.1, resultOf columns x.2) := by
  rw [List.map_map]
  rfl

/-- A query whose sort keys and columns have values arranges its answers. -/
theorem run_eq_arranged [Disorder] (bindings : tables.bindingsOf q = .ok kept)
    (keys : ∀ binding ∈ kept, ∀ key ∈ q.order, eval q.parameters binding key.expr =
      .ok ((eval [] binding key.expr).toOption.getD .null))
    (cells : ∀ binding ∈ kept,
      resultRow q.parameters q.columns binding = .ok (resultOf q.columns binding)) :
    tables.run q = .ok (arranged q.order q.limit (kept.map (answer q.order q.columns))) := by
  -- Sorting and cutting off add nothing, so that the cells of what is left have values.
  have among : ∀ binding ∈ cutOff q.limit ((byKeys q.order
      (kept.map fun binding => (sortKeys q.order binding, binding))).map (·.2)),
      binding ∈ kept := by
    intro binding hb
    obtain ⟨pair, hp, rfl⟩ := List.mem_map.1 (cutOff_subset _ _ hb)
    obtain ⟨binding, hb', rfl⟩ := List.mem_map.1 (mem_byKeys.1 hp)
    exact hb'
  have rowsOf := Outcome.mapM_ok fun binding hb => cells binding (among binding hb)
  have run : tables.run q = (sorted q.parameters q.order kept >>= fun ordered =>
      (cutOff q.limit ordered).mapM (resultRow q.parameters q.columns)) := by
    rw [Tables.run, bindings]
    rfl
  rw [run, sorted_eq keys, Outcome.ok_bind, rowsOf, arranged, map_answer, byKeys_map, cutOff_map,
    cutOff_map, List.map_map, List.map_map]
  rfl

/-- The sort gives up on a query where it gives up on its answers. -/
theorem givesUp_eq [Disorder] (bindings : tables.bindingsOf q = .ok kept)
    (keys : ∀ binding ∈ kept, ∀ key ∈ q.order, eval q.parameters binding key.expr =
      .ok ((eval [] binding key.expr).toOption.getD .null)) :
    tables.givesUp q =
      (sort? (precedes q.order) (kept.map (answer q.order q.columns))).isNone := by
  rw [map_answer, sort?_map, Option.isNone_map]
  cases order : q.order with
  | nil =>
    rw [givesUp_unordered order]
    exact (congrArg Option.isNone (sort?_of_consistent (consistent_never _))).symm
  | cons key rest =>
    rw [order] at keys
    simp only [givesUp, sorts, order, bindings, Outcome.ok_bind, keyed_eq keys]
    rfl

end Tables

/-! ### Answers of a plan -/

namespace Tables

open Joins

variable {s : QuerySchema} {root : EntityType} {named : String → Prop} {tables : Tables}
variable {before joins : Joins} {order : List OrderKey} {columns : List Column}

/-- A binding that was extended is answered as it was before, if the sort keys
and the columns read what was there before. -/
theorem answer_of_mem_spread (planned : Joins.Planned s root (before ++ joins))
    (keys : ∀ key ∈ order, key.Reads s root before)
    (cells : ∀ c ∈ columns, c.Reads s root named before) {binding more : Binding}
    (spans : Spans before binding) (h : more ∈ tables.spread joins binding) :
    answer order columns more = answer order columns binding := by
  obtain ⟨spans', grown⟩ := tables.spans_of_mem_spread planned spans h
  have same : ∀ p a name, aliasOf? before p = some a →
      eval [] more (.column a name) = eval [] binding (.column a name) := by
    intro p a name joined
    rw [eval_column spans.covers joined [], eval_column spans'.covers
      (aliasOf?_mono (List.prefix_append _ _) joined) [],
      choiceOf_mono joined (List.prefix_append _ _) spans.covers grown]
  refine Prod.ext (List.map_congr_left fun key hk => ?_) (List.map_congr_left fun c hc => ?_)
  · obtain ⟨-, -, joined⟩ := keys key hk
    rw [same _ _ _ joined]
  · obtain ⟨-, -, joined, -⟩ := cells c hc
    rw [same _ _ _ joined]

end Tables

namespace Planning

open Planner Joins

variable {s : QuerySchema} {named : String → Prop} {vars : Variables} {field : Document.Field}
variable {plan : RootPlan} {entity : EntityType} {select : Document.Field}
variable {gs : List SelectedField} {tables : Tables} {rootRows : List Row}

/-- The sort keys of a planned query have values on the bindings that its
filter keeps. -/
theorem PlanOf.eval_key (p : PlanOf s named vars field plan entity select gs)
    {binding : Binding} (covers : Covers plan.query.joins binding) :
    ∀ key ∈ plan.query.order, eval plan.query.parameters binding key.expr =
      .ok ((eval [] binding key.expr).toOption.getD .null) := by
  intro key hk
  obtain ⟨-, -, joined⟩ := p.order key hk
  rw [Tables.eval_column covers joined _, Tables.eval_column covers joined []]
  rfl

/-- A planned query arranges the answers of the bindings that its filter
keeps. -/
theorem PlanOf.run_arranged [Disorder] (p : PlanOf s named vars field plan entity select gs)
    (table : Keyed.find? tables plan.query.table = some rootRows) (limit : Option Nat) :
    tables.run (plan.query.limitedTo limit) =
      .ok (Tables.arranged plan.query.order limit
        ((rootRows.flatMap (kept s entity vars tables plan)).map
          (Tables.answer plan.query.order plan.query.columns))) := by
  obtain ⟨joined, join, filter, covers⟩ := p.kept_eq rootRows
  exact Tables.run_eq_arranged (q := plan.query.limitedTo limit)
    (Tables.bindingsOf_eq table join filter) (fun binding hb => p.eval_key (covers binding hb))
    fun binding hb => Tables.resultRow_eq p.columns p.distinct (covers binding hb) _

/-- It has no answer where the sort gives up on these. -/
theorem PlanOf.givesUp_eq [Disorder] (p : PlanOf s named vars field plan entity select gs)
    (table : Keyed.find? tables plan.query.table = some rootRows) (limit : Option Nat) :
    tables.givesUp (plan.query.limitedTo limit) =
      (sort? (Tables.precedes plan.query.order)
        ((rootRows.flatMap (kept s entity vars tables plan)).map
          (Tables.answer plan.query.order plan.query.columns))).isNone := by
  obtain ⟨joined, join, filter, covers⟩ := p.kept_eq rootRows
  exact Tables.givesUp_eq (q := plan.query.limitedTo limit)
    (Tables.bindingsOf_eq table join filter) fun binding hb => p.eval_key (covers binding hb)

/-- What a plan goes on from: the draft that its selection left. -/
structure GoesOn (d : Draft) (plan : RootPlan) (joins : Joins) : Prop where
  joins : plan.query.joins = d.joins ++ joins
  columns : plan.query.columns = d.columns
  order : plan.query.order = d.order

/-- A binding for the joins of the selection is answered as often as the
filter keeps an extension of it by the other joins. -/
theorem PlanOf.map_answer_kept (p : PlanOf s named vars field plan entity select gs) {d : Draft}
    (planned : d.Planned s entity named) {joins : Joins} (goesOn : GoesOn d plan joins)
    (tables : Tables) (row : Row) :
    (kept s entity vars tables plan row).map
        (Tables.answer plan.query.order plan.query.columns) =
      (tables.spread d.joins [(rootAlias, some row)]).flatMap fun binding =>
        List.replicate
          (((tables.spread joins binding).map (choiceOf (d.joins ++ joins))).countP
            (keeps s entity vars plan.filter))
          (Tables.answer d.order d.columns binding) := by
  have all := p.joins
  rw [goesOn.joins] at all
  simp only [kept, goesOn.joins, goesOn.order, goesOn.columns]
  -- What is joined for the filter alone multiplies the answer of a binding, and does not change it.
  rw [Tables.spread_append, List.filter_flatMap, List.map_flatMap]
  refine List.flatMap_congr fun binding hb => ?_
  have spans := (tables.spans_of_mem_spread planned.joins (spans_root (some row)) hb).1
  rw [List.countP_map, List.countP_eq_length_filter]
  refine List.eq_replicate_iff.2 ⟨List.length_map _, fun a ha => ?_⟩
  obtain ⟨more, hm, rfl⟩ := List.mem_map.1 ha
  exact Tables.answer_of_mem_spread all planned.order planned.columns spans
    (List.mem_filter.1 hm).1

/-! ### Criteria in another order -/

/-- A root field is planned exactly if its entity exists, it has no other
argument, and its selection and then its filter can be planned. -/
theorem planRootField_iff : planRootField s vars field = .ok plan ↔
    ∃ entity d d', s.root? field.name = some entity ∧
      field.arguments.find? (·.1 ≠ whereArgument) = none ∧
      Gives (Selection.planRoot s vars entity field) Draft.empty plan.selection d ∧
      filterOf vars field = .ok plan.filter ∧
      Gives (compileFilter s entity vars plan.filter) d plan.query.filter d' ∧
      plan.query = finish entity d' plan.query.filter := by
  constructor
  · intro h
    obtain ⟨entity, d', condition, root, run, query⟩ := planRootField_eq_ok h
    obtain ⟨d, selected, filtered, compiled⟩ := gives_planParts.1 run
    have filter : plan.query.filter = condition := by
      rw [query]
      rfl
    rw [← filter] at query compiled
    refine ⟨entity, d, d', root, ?_, selected, filtered, compiled, query⟩
    -- An argument other than the filter would have been refused.
    simp only [planRootField, root] at h
    cases other : field.arguments.find? (·.1 ≠ whereArgument) with
    | none => rfl
    | some argument =>
      rw [other] at h
      obtain ⟨_, h', -⟩ := Outcome.bind_eq_ok.1 h
      cases h'
  · rintro ⟨entity, d, d', root, other, selected, filtered, compiled, query⟩
    have parts : (planParts s vars entity field).run Draft.empty =
        (.ok (plan.selection, plan.filter, plan.query.filter), d') :=
      gives_planParts.2 ⟨d, selected, filtered, compiled⟩
    simp only [planRootField, root, other, parts]
    obtain ⟨selection, filter, query'⟩ := plan
    exact congrArg (fun q => Except.ok (RootPlan.mk selection filter q)) query.symm

/-- A filter of the same sense compiles where the first one does. -/
theorem compileFilter_sameSense {f f' : Option Filter} (same : Option.Rel Filter.SameSense f f')
    {d d' : Draft} {condition : Option Expr}
    (compiled : Gives (compileFilter s entity vars f) d condition d') :
    ∃ condition' d'', Gives (compileFilter s entity vars f') d condition' d'' := by
  cases same with
  | none => exact ⟨condition, d', compiled⟩
  | @some f f' same =>
    obtain ⟨e, d₁, compiled, -⟩ := gives_bind.1 compiled
    -- Whether a leaf compiles depends neither on its place nor on the draft.
    have none : fault (Predicate.compile s entity vars f') d = none := by
      have first := fault_eq_none.2 ⟨e, d₁, compiled⟩
      rw [Predicate.fault_compile, List.findSome?_eq_none_iff] at first ⊢
      exact fun leaf hl => first leaf (same.leaves.mem_iff.2 hl)
    obtain ⟨e', d'', compiled'⟩ := fault_eq_none.1 none
    exact ⟨some e', d'', gives_bind.2 ⟨e', d'', compiled', gives_pure.2 ⟨rfl, rfl⟩⟩⟩

/-- Filters of the same sense keep the same choices. -/
theorem keeps_sameSense {f f' : Option Filter} (same : Option.Rel Filter.SameSense f f') :
    keeps s entity vars f = keeps s entity vars f' := by
  cases same with
  | none => rfl
  | some same =>
    funext choice
    have meaning : Predicate.meaning s entity vars choice _ =
        Predicate.meaning s entity vars choice _ := same.truth _
    show decide (_ = Truth.yes) = decide (_ = Truth.yes)
    rw [meaning]

/-- Filters of the same sense join the same paths. -/
theorem joining_sameSense {f f' : Option Filter} (same : Option.Rel Filter.SameSense f f')
    {d d' d'' : Draft} {condition condition' : Option Expr}
    (compiled : Gives (compileFilter s entity vars f) d condition d')
    (compiled' : Gives (compileFilter s entity vars f') d condition' d'') (path : List String) :
    path ∈ d'.joins.map (·.path) ↔ path ∈ d''.joins.map (·.path) := by
  rw [joining_compileFilter compiled path, joining_compileFilter compiled' path]
  refine or_congr_right ?_
  cases same with
  | none => exact Iff.rfl
  | some same =>
    simp only [Option.some.injEq, exists_eq_left', same.leaves.mem_iff]

/-- Compiling the filter of a plan goes on from the joins of its selection. -/
theorem goesOn_of_compileFilter {d d' : Draft} {f : Option Filter}
    (compiled : Gives (compileFilter s entity vars f) d plan.query.filter d')
    (query : plan.query = finish entity d' plan.query.filter) :
    ∃ joins, GoesOn d plan joins ∧ d'.joins = d.joins ++ joins := by
  have grown := Keeps.compileFilter cumulative_grows grows_bindValue grows_join _ _ _ _ _ _ _
    compiled
  have kept := Keeps.compileFilter cumulative_keepsColumns keepsColumns_bindValue
    keepsColumns_join _ _ _ _ _ _ _ compiled
  obtain ⟨joins, split⟩ := grown.joins
  refine ⟨joins, ⟨?_, ?_, ?_⟩, split.symm⟩
  · rw [query]
    exact split.symm
  · rw [query]
    exact kept.1
  · rw [query]
    exact kept.2

/-- Two plans that go on from one selection, with joins of the same paths and
filters that keep the same choices, have the same answers for a root row. -/
theorem PlanOf.map_answer_eq {field' : Document.Field} {plan' : RootPlan}
    {select' : Document.Field} {gs' : List SelectedField}
    (p : PlanOf s named vars field plan entity select gs)
    (p' : PlanOf s named vars field' plan' entity select' gs') {d : Draft}
    (planned : d.Planned s entity named) {joins joins' : Joins} (goesOn : GoesOn d plan joins)
    (goesOn' : GoesOn d plan' joins')
    (paths : ∀ path, path ∈ (d.joins ++ joins).map (·.path) ↔
      path ∈ (d.joins ++ joins').map (·.path))
    (same : keeps s entity vars plan.filter = keeps s entity vars plan'.filter)
    (tables : Tables) (row : Row) :
    (kept s entity vars tables plan row).map
        (Tables.answer plan.query.order plan.query.columns) =
      (kept s entity vars tables plan' row).map
        (Tables.answer plan'.query.order plan'.query.columns) := by
  have all := p.joins
  have all' := p'.joins
  rw [goesOn.joins] at all
  rw [goesOn'.joins] at all'
  rw [p.map_answer_kept planned goesOn, p'.map_answer_kept planned goesOn', same]
  refine List.flatMap_congr fun binding hb => ?_
  -- Both filters join the same paths, in different orders, and keep the same choices.
  have spans := (tables.spans_of_mem_spread planned.joins (spans_root (some row)) hb).1
  rw [(Tables.perm_choiceOf_spread all all' paths spans).countP_eq]

/-- A root field with its criteria in another order is planned, too. -/
theorem exists_plan_reordered {w w' : Document.Value} (reordered : w.Reordered vars w')
    {label : Option String} {root : String} {before after : List (String × Document.Value)}
    {selection : List Document.Field}
    (planned : planRootField s vars (fieldWhere label root before after selection w) =
      .ok plan) :
    ∃ plan', planRootField s vars (fieldWhere label root before after selection w') =
      .ok plan' := by
  obtain ⟨entity, d, d', found, other, selected, filtered, compiled, -⟩ :=
    planRootField_iff.1 planned
  obtain ⟨f, filtered', same⟩ :=
    (agree_filterOf reordered label root before after selection).of_ok filtered
  obtain ⟨condition, d'', compiled'⟩ := compileFilter_sameSense same compiled
  refine ⟨⟨plan.selection, f, finish entity d'' condition⟩, planRootField_iff.2
    ⟨entity, d, d'', found, ?_, selected, filtered', compiled', rfl⟩⟩
  -- The argument that was exchanged is the filter, and no other was there to be refused.
  have only : ∀ v, (fieldWhere label root before after selection v).arguments.find?
      (·.1 ≠ whereArgument) =
        (before.find? (·.1 ≠ whereArgument)).or (after.find? (·.1 ≠ whereArgument)) := by
    intro v
    show (before ++ (whereArgument, v) :: after).find? (·.1 ≠ whereArgument) = _
    rw [List.find?_append, List.find?_cons_of_neg (by simp)]
  rw [only] at other ⊢
  exact other

/-- **The order in which criteria are written does not matter.**  A root field
is planned with its criteria in one order exactly if it is planned with them
in the other, and then both queries give the same rows in the same places,
under any limit and whatever the tables hold; where the sort gives up on one,
it gives up on the other. -/
theorem run_reordered [Disorder] {name : String} {descriptors : List EntityDescriptor}
    {registry : ScalarRegistry} (built : QuerySchema.build name descriptors registry = .ok s)
    {w w' : Document.Value} (reordered : w.Reordered vars w') (label : Option String)
    (root : String) (before after : List (String × Document.Value))
    (selection : List Document.Field) :
    ((∃ plan, planRootField s vars (fieldWhere label root before after selection w) = .ok plan) ↔
      ∃ plan, planRootField s vars (fieldWhere label root before after selection w') =
        .ok plan) ∧
    ∀ plan plan',
      planRootField s vars (fieldWhere label root before after selection w) = .ok plan →
      planRootField s vars (fieldWhere label root before after selection w') = .ok plan' →
      plan'.selection = plan.selection ∧
      ∀ (tables : Tables) (limit : Option Nat),
        tables.run (plan.query.limitedTo limit) =
            tables.run (plan'.query.limitedTo limit) ∧
          tables.run? (plan.query.limitedTo limit) =
            tables.run? (plan'.query.limitedTo limit) := by
  refine ⟨⟨fun ⟨_, planned⟩ => exists_plan_reordered reordered planned,
    fun ⟨_, planned⟩ => exists_plan_reordered reordered.symm planned⟩, ?_⟩
  intro plan plan' planned planned'
  have identified : s.Identified fun _ => True :=
    ⟨QuerySchema.identified_of_build built, fun _ _ => trivial⟩
  have named := Document.Field.allThroughout_of_forall (P := (·.Named fun _ => True))
    (fun _ => trivial) selection
  -- Both plans have the selection in common, and the draft that it leaves.
  obtain ⟨entity, d, d₁, found, -, selected, filtered, compiled, query⟩ :=
    planRootField_iff.1 planned
  obtain ⟨entity', d', d₂, found', -, selected', filtered', compiled', query'⟩ :=
    planRootField_iff.1 planned'
  obtain rfl : entity = entity' := Option.some.inj (found.symm.trans found')
  obtain ⟨selection', rfl⟩ : plan.selection = plan'.selection ∧ d = d' := by
    have run : (Except.ok plan.selection, d) = (Except.ok plan'.selection, d') :=
      selected.symm.trans selected'
    simpa using run
  refine ⟨selection'.symm, fun tables limit => ?_⟩
  obtain ⟨f, filtered'', same⟩ :=
    (agree_filterOf reordered label root before after selection).of_ok filtered
  obtain rfl : f = plan'.filter := Except.ok.inj (filtered''.symm.trans filtered')
  obtain ⟨_, _, -, -, left⟩ :=
    selected_of_planRoot selected (QuerySchema.mem_of_root? found) identified named
  obtain ⟨select, gs, p⟩ := planOf_of_build built planned found
  obtain ⟨select', gs', p'⟩ := planOf_of_build built planned' found
  obtain ⟨joins, goesOn, split⟩ := goesOn_of_compileFilter compiled query
  obtain ⟨joins', goesOn', split'⟩ := goesOn_of_compileFilter compiled' query'
  -- So what comes after it is all that differs: the same paths in another order.
  have paths := joining_sameSense same compiled compiled'
  rw [split, split'] at paths
  have table : plan'.query.table = plan.query.table := p'.table.trans p.table.symm
  have alike : tables.run (plan.query.limitedTo limit) =
        tables.run (plan'.query.limitedTo limit) ∧
      tables.givesUp (plan.query.limitedTo limit) =
        tables.givesUp (plan'.query.limitedTo limit) := by
    cases rows : Keyed.find? tables plan.query.table with
    | none =>
      have rows' := rows
      rw [← table] at rows'
      have unknown := Tables.run_unknown (q := plan.query.limitedTo limit) rows
      have unknown' := Tables.run_unknown (q := plan'.query.limitedTo limit) rows'
      have finished := Tables.givesUp_unknown (q := plan.query.limitedTo limit) rows
      have finished' := Tables.givesUp_unknown (q := plan'.query.limitedTo limit) rows'
      rw [unknown, unknown', finished, finished']
      exact ⟨congrArg (fun t => Except.error (StoreError.unknownTable t)) table.symm, rfl⟩
    | some rootRows =>
      have rows' := rows
      rw [← table] at rows'
      have answers : (rootRows.flatMap (kept s entity vars tables plan)).map
            (Tables.answer plan.query.order plan.query.columns) =
          (rootRows.flatMap (kept s entity vars tables plan')).map
            (Tables.answer plan'.query.order plan'.query.columns) := by
        rw [List.map_flatMap, List.map_flatMap]
        exact List.flatMap_congr fun row _ =>
          p.map_answer_eq p' left.planned goesOn goesOn' paths (keeps_sameSense same) tables row
      rw [p.run_arranged rows limit, p'.run_arranged rows' limit, p.givesUp_eq rows limit,
        p'.givesUp_eq rows' limit, answers, goesOn.order, goesOn'.order]
      exact ⟨rfl, rfl⟩
  refine ⟨alike.1, ?_⟩
  simp only [Tables.run?, alike.1, alike.2]

end Planning

/-! ### The small library -/

namespace Sample

/-- Books called `x` whose author has a name that begins with `y`, and an
identifier. -/
def sifted : Document.Value :=
  .object [("title", .object [("EQ", .string "x")]),
    ("author", .object [("name", .object [("LIKE", .string "y%")]),
      ("id", .object [("NOT_NULL", .boolean true)])])]

/-- The same in another order. -/
def siftedOtherwise : Document.Value :=
  .object [("author", .object [("id", .object [("NOT_NULL", .boolean true)]),
      ("name", .object [("LIKE", .string "y%")])]),
    ("title", .object [("EQ", .string "x")])]

theorem sifted_reordered (vars : Variables) : sifted.Reordered vars siftedOtherwise := by
  refine ⟨⟨fun h => ?_, fun h => ?_⟩, ?_⟩
  · cases h
  · cases h
  · have inside : Criteria.Reordered vars (Criteria.Place.of "author")
        (.object [("name", .object [("LIKE", .constant (.string "y%"))]),
          ("id", .object [("NOT_NULL", .constant (.bool true))])])
        (.object [("id", .object [("NOT_NULL", .constant (.bool true))]),
          ("name", .object [("LIKE", .constant (.string "y%"))])]) :=
      .entries _ (.swap _ _ _)
    exact .trans (.entry [("title", .object [("EQ", .constant (.string "x"))])] [] inside
      fun h => nomatch h) (.entries .criteria (.swap _ _ _))

/-- The titles in descending order. -/
def titlesDescending : List Document.Field :=
  [.mk none "select" [] [.mk none "title" [("orderBy", .enum "DESC")] []]]

end Sample

/-- In the library, the first row for criteria in one order is that for the
criteria in the other. -/
theorem run_reordered_library :
    ∃ plan, Planning.planRootField Sample.schema []
        (Planning.fieldWhere none "books" [] [] Sample.titlesDescending
          Sample.siftedOtherwise) = .ok plan ∧
      Sample.tables.run (plan.query.limitedTo (some 1)) =
        .ok [[("title", .string "x"), ("id", .string "1")]] := by
  have planned : Planning.planRootField Sample.schema []
      (Planning.fieldWhere none "books" [] [] Sample.titlesDescending Sample.sifted) =
        .ok _ := rfl
  obtain ⟨both, same⟩ := Planning.run_reordered Sample.schema_built (Sample.sifted_reordered [])
    none "books" [] [] Sample.titlesDescending
  obtain ⟨plan, planned'⟩ := both.1 ⟨_, planned⟩
  obtain ⟨-, same⟩ := same _ plan planned planned'
  have rows := same Sample.tables (some 1)
  refine ⟨plan, planned', ?_⟩
  rw [← rows.1]
  rfl

end EntityQuery
