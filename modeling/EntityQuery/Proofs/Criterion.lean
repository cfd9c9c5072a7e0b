/-
EntityQuery/Proofs/Criterion.lean

Root fields restricted by one test of one field.

Criteria that test a field of the root with one operator are read as a single
leaf, unless the field is called like a combinator (`Planning.filterOf_tests`).
If the scalar of the field takes the operand, the leaf compiles to the
comparison of its column and nothing else (`compile_tests`).  So a field that
can be planned without criteria can be planned under them, with the same rows
to come (`planRootField_restrictedBy`), and its query keeps a row of the root
if the verdict on the cell of the field is true (`PlanOf.holds_tests`).
-/
import EntityQuery.Proofs.Roots

namespace EntityQuery

open Store

/-- The field with the criteria as its only argument. -/
def Document.Field.restrictedBy (f : Document.Field) (criteria : Document.Value) :
    Document.Field :=
  .mk f.label f.name [(Planning.whereArgument, criteria)] f.selection

/-- The criteria that test a field with one operator. -/
def Document.Value.tests (name : String) (operator : FilterOperator) (value : Document.Value) :
    Document.Value :=
  .object [(name, .object [(operator.token, value)])]

namespace Planning

open Planner Joins

variable {s : QuerySchema} {named : String → Prop} {vars : Variables} {field : Document.Field}
variable {plan : RootPlan} {entity : EntityType} {select : Document.Field}
variable {gs : List SelectedField} {name : String} {operator : FilterOperator}

/-! ### Reading the test -/

/-- One operator alone is a group of operators. -/
theorem isLeafGroup_token (operator : FilterOperator) (operand : Operand) :
    Criteria.isLeafGroup [(operator.token, operand)] = true := by
  have word : isOperatorToken operator.token = true := by cases operator <;> decide
  have plain : Criteria.isCombinator operator.token = false := by cases operator <;> decide
  simp [Criteria.isLeafGroup, word, plain, FilterOperator.ofToken?_token]

/-- The test of a field is one leaf, unless the field is called like a
combinator. -/
theorem filterOf_tests (plain : Criteria.isCombinator name = false) (operator : FilterOperator)
    (value : Document.Value) :
    filterOf vars (field.restrictedBy (.tests name operator value)) =
      .ok (some (.leaf ⟨[name], operator.token, .ofValue value⟩)) := by
  simp only [Criteria.isCombinator, Bool.or_eq_false_iff, decide_eq_false_iff_not] at plain
  obtain ⟨⟨noAnd, noOr⟩, noNot⟩ := plain
  -- The name is no combinator and its only member an operator, so that one leaf is read.
  have entry : ∀ inner, Criteria.readEntry vars inner [] name
      (.object [(operator.token, .ofValue value)]) =
        .ok [.leaf ⟨[name], operator.token, .ofValue value⟩] := by
    intro inner
    simp only [Criteria.readEntry]
    rw [if_neg noAnd, if_neg noOr, if_neg noNot, Operand.entries, Outcome.ok_bind,
      if_pos (isLeafGroup_token operator _)]
    rfl
  have within : ∀ room, Criteria.readWithin vars (room + 1) []
      (.object [(name, .object [(operator.token, .ofValue value)])]) =
        .ok (.leaf ⟨[name], operator.token, .ofValue value⟩) := by
    intro room
    rw [Criteria.readWithin, Operand.entries, Outcome.ok_bind]
    simp only [List.isEmpty_cons, Bool.false_eq_true, if_false, List.mapM_cons, List.mapM_nil,
      entry]
    rfl
  show Criteria.read vars (.tests name operator value) = _
  simp only [Criteria.read, Document.Value.tests, Operand.ofValue, Operand.ofEntries]
  rw [Operand.entries, Outcome.ok_bind, within]
  rfl

/-! ### Conditions on the root -/

/-- A root field without a where argument is planned without a filter. -/
theorem PlanOf.filter_eq_none (p : PlanOf s named vars field plan entity select gs)
    (unrestricted : field.argument? whereArgument = none) : plan.filter = none := by
  have filter := p.filter
  simp only [filterOf] at filter
  rw [unrestricted] at filter
  exact (Except.ok.inj filter).symm

theorem rootOnly_of_unrestricted (unrestricted : plan.filter = none) :
    ∀ f, plan.filter = some f → f.RootOnly := by
  intro f some
  cases unrestricted.symm.trans some

/-- Of a root row alone the condition says what the filter keeps. -/
theorem PlanOf.holds_eq_keeps (p : PlanOf s named vars field plan entity select gs)
    (rootOnly : ∀ f, plan.filter = some f → f.RootOnly) (row : Row) :
    plan.query.holds row = keeps s entity vars plan.filter fun _ => some row :=
  (p.keeps_eq_holds rootOnly rfl).symm

/-- Without a filter all rows are kept. -/
theorem PlanOf.filter_holds (p : PlanOf s named vars field plan entity select gs)
    (unrestricted : plan.filter = none) (rows : List Row) :
    rows.filter plan.query.holds = rows := by
  refine List.filter_eq_self.2 fun row _ => ?_
  rw [p.holds_eq_keeps (rootOnly_of_unrestricted unrestricted), unrestricted]
  rfl

/-! ### Compiling the test -/

section Test

variable {g : SchemaField} {b : ScalarBinding} {operand : Operand} {v : Json}

theorem ofToken?_token_filter (supported : b.supports operator = true) :
    (FilterOperator.ofToken? operator.token).filter b.supports = some operator := by
  rw [FilterOperator.ofToken?_token]
  simp [supported]

/-- The test of a field of the root is the comparison of its column. -/
theorem compile_field (found : entity.field? name = some g) (bound : g.binding = some b)
    (supported : b.supports operator = true) (operand : Operand) :
    Predicate.compile s entity vars (.leaf ⟨[name], operator.token, operand⟩) =
      Predicate.comparison vars name (.column rootAlias g.descriptor.column) b operator
        operand := by
  simp only [Predicate.compile, Predicate.compileLeaf, List.isEmpty_cons, Bool.false_eq_true,
    if_false]
  unfold Predicate.compileFrom
  rw [found]
  dsimp only
  rw [bound]
  dsimp only
  rw [ofToken?_token_filter supported]
  rfl

/-- With a value that its scalar takes it compares the column with that. -/
theorem compile_tests (found : entity.field? name = some g) (bound : g.binding = some b)
    (supported : b.supports operator = true) (noFlag : operator.takesFlag = false)
    (noList : operator.takesList = false)
    (coerced : Predicate.coerce vars name b operand = .ok v) :
    Predicate.compile s entity vars (.leaf ⟨[name], operator.token, operand⟩) =
      Comparison.translate b (.column rootAlias g.descriptor.column) operator v := by
  rw [compile_field found bound supported]
  simp only [Predicate.comparison, noFlag, noList, Bool.false_eq_true, if_false, coerced]
  rfl

theorem rootOnly_of_leaf {token : String}
    (filter : plan.filter = some (.leaf ⟨[name], token, operand⟩)) :
    ∀ f, plan.filter = some f → f.RootOnly := by
  intro f some
  rw [filter] at some
  cases some
  exact List.forall_mem_singleton.2 rfl

/-- Of a root row the test is true if the verdict on its cell is. -/
theorem PlanOf.holds_verdict (p : PlanOf s named vars field plan entity select gs)
    (filter : plan.filter = some (.leaf ⟨[name], operator.token, operand⟩))
    (found : entity.field? name = some g) (bound : g.binding = some b)
    (supported : b.supports operator = true) {row : Row}
    (verdict : Predicate.verdict vars name b operator operand
      (cellOf (some row) g.descriptor.column) = .ok v) :
    plan.query.holds row = isTrue v := by
  have said : Predicate.leafVerdict s entity vars (fun _ => some row)
      ⟨[] ++ [name], operator.token, operand⟩ = some v := by
    rw [Predicate.leafVerdict_concat (s.entityAt_nil entity) found bound
      (ofToken?_token_filter supported)]
    exact Outcome.toOption_eq_some.2 verdict
  rw [p.holds_eq_keeps (rootOnly_of_leaf filter), filter]
  rw [Predicate.leafVerdict_eq_toJson said, Bool.eq_iff_iff, Truth.isTrue_toJson]
  exact decide_eq_true_iff

/-- With a value that the scalar takes it is true if the cell compares. -/
theorem PlanOf.holds_tests (p : PlanOf s named vars field plan entity select gs)
    (filter : plan.filter = some (.leaf ⟨[name], operator.token, operand⟩))
    (found : entity.field? name = some g) (bound : g.binding = some b)
    (supported : b.supports operator = true) (noFlag : operator.takesFlag = false)
    (noList : operator.takesList = false)
    (coerced : Predicate.coerce vars name b operand = .ok v) (row : Row) :
    plan.query.holds row =
      isTrue (Comparison.verdict b operator v (cellOf (some row) g.descriptor.column)) := by
  refine p.holds_verdict filter found bound supported ?_
  simp only [Predicate.verdict, noFlag, noList, Bool.false_eq_true, if_false, coerced]
  rfl

end Test

/-! ### Planning under criteria -/

/-- A field without criteria that can be planned can be planned under any
criteria whose filter compiles without joining anything; the rows of the query
are made and sorted in the same way. -/
theorem planRootField_restrictedBy {criteria : Document.Value} {f : Filter}
    (planned : planRootField s vars field = .ok plan) (root : s.root? field.name = some entity)
    (unrestricted : plan.filter = none)
    (filter : filterOf vars (field.restrictedBy criteria) = .ok (some f))
    (compiles : ∀ d, ∃ e d', Gives (Predicate.compile s entity vars f) d e d' ∧
      d'.joins = d.joins) :
    ∃ plan', planRootField s vars (field.restrictedBy criteria) = .ok plan' ∧
      plan'.filter = some f ∧ plan'.selection = plan.selection ∧
      plan'.query.joins = plan.query.joins ∧ plan'.query.columns = plan.query.columns ∧
      plan'.query.order = plan.query.order := by
  obtain ⟨entity', d, condition, root', run, query⟩ := planRootField_eq_ok planned
  rw [root] at root'
  cases root'
  obtain ⟨d₁, selected, -, nothing⟩ := gives_planParts.1 run
  rw [unrestricted] at nothing
  obtain ⟨rfl, rfl⟩ := gives_pure.1 nothing
  obtain ⟨e, d', compiled, joins⟩ := compiles d₁
  obtain ⟨columns, order⟩ := Keeps.compile cumulative_keepsColumns keepsColumns_bindValue
    keepsColumns_join _ _ _ _ _ _ _ compiled
  -- The selection is planned as before, and then the filter on the same draft.
  have whole : Gives (planParts s vars entity (field.restrictedBy criteria)) Draft.empty
      (plan.selection, some f, some e) d' := by
    refine gives_planParts.2 ⟨d₁, selected, filter, ?_⟩
    exact gives_bind.2 ⟨e, d', compiled, gives_pure.2 ⟨rfl, rfl⟩⟩
  refine ⟨⟨plan.selection, some f, finish entity d' (some e)⟩, ?_, rfl, rfl, ?_, ?_, ?_⟩
  · have root : s.root? (field.restrictedBy criteria).name = some entity := root
    have whole : (planParts s vars entity (field.restrictedBy criteria)).run Draft.empty =
      (.ok (plan.selection, some f, some e), d') := whole
    simp only [planRootField]
    rw [root]
    dsimp only
    rw [whole]
    rfl
  all_goals rw [query]
  · exact joins
  · exact columns
  · exact order

end Planning

end EntityQuery
