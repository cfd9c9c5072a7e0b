/-
EntityQuery/Proofs/Tested.lean

What the tests of a field say about the things that its cells stand for.

A leaf of a filter tests a field with an operator and the values of its
operand: one value for a comparison, the candidates for a membership test
(`Predicate.Tests`).  Such a leaf always compiles.  Where the cell and the
values compare as elements of a linear order do, the leaf says whether those
elements stand in the relation that the operator asks for
(`FilterOperator.Asks`): as a verdict (`Supplies.verdict`), as a condition on
joined rows (`Tests.eval`), and on the rows of a root field
(`Planning.run_tested`).
-/
import EntityQuery.Proofs.Contained

namespace EntityQuery

open Store

namespace FilterOperator

/-- Operators that compare with one value. -/
def compares : FilterOperator → Bool
  | .eq => true
  | .ne => true
  | .gt => true
  | .ge => true
  | .lt => true
  | .le => true
  | _ => false

theorem plain_of_compares {operator : FilterOperator} (h : operator.compares = true) :
    operator.takesFlag = false ∧ operator.takesList = false := by
  cases operator <;> first | exact ⟨rfl, rfl⟩ | cases h

/-- What an operator asks of something beside what is given to it: one thing
to compare with, or candidates. -/
def Asks {α : Type} [LT α] [LE α] : FilterOperator → α → List α → Prop
  | .eq, x, [y] => x = y
  | .ne, x, [y] => x ≠ y
  | .gt, x, [y] => y < x
  | .ge, x, [y] => y ≤ x
  | .lt, x, [y] => x < y
  | .le, x, [y] => x ≤ y
  | .oneOf, x, ys => x ∈ ys
  | .noneOf, x, ys => x ∉ ys
  | _, _, _ => False

end FilterOperator

/-! ### Comparing as something else does -/

namespace Store

/-- A cell and a value compare as two elements of an order do. -/
structure ComparesAs {α : Type} [Ord α] (cell : Json) (x : α) (value : Json) (y : α) : Prop where
  present : value.isNull = false
  order : compareValues cell value = some (compare x y)

section

variable {α : Type} [LinearOrder α] {cell : Json} {x : α}

theorem ComparesAs.isEqual_iff {value : Json} {y : α} (h : ComparesAs cell x value y) :
    isEqual cell value = true ↔ x = y := by
  rw [isEqual, h.order, beq_iff_eq, Option.some.injEq, compare_eq_iff_eq]

theorem any_isEqual_iff {values : List Json} {ys : List α}
    (alike : List.Forall₂ (ComparesAs cell x) values ys) :
    values.any (isEqual cell) = true ↔ x ∈ ys := by
  induction alike with
  | nil => simp
  | cons first _ ih => rw [List.any_cons, Bool.or_eq_true, first.isEqual_iff, ih, List.mem_cons]

end

end Store

/-! ### Verdicts -/

namespace Comparison

variable {b : ScalarBinding}

theorem storedCell_of_native (native : b.storage = .native) (cell : Json) :
    storedCell b cell = cell := by
  rw [storedCell, native]

theorem storedValue_of_native (native : b.storage = .native) : storedValue b = fun v => v := by
  funext v
  rw [storedValue, native]

/-- What a comparison with a value says about a cell. -/
theorem verdict_comparesAs {α : Type} [LinearOrder α] {operator : FilterOperator} {cell v : Json}
    {x y : α} (compares : operator.compares = true) (native : b.storage = .native)
    (present : cell.isNull = false) (alike : ComparesAs cell x v y) :
    ∃ t : Bool, verdict b operator v cell = .bool t ∧ (t = true ↔ operator.Asks x [y]) := by
  have compared : ∀ o, comparison o (storedCell b cell) (storedValue b v) =
      .bool (satisfies o (some (compare x y))) := by
    intro o
    rw [storedCell_of_native native, storedValue_of_native native, comparison, present,
      alike.present, alike.order]
    rfl
  -- Each operator asks for some of the three outcomes of the comparison.
  cases operator <;> cases compares <;>
    simp only [verdict, alike.present, Bool.false_eq_true, if_false, compared,
      FilterOperator.Asks] <;>
    refine ⟨_, rfl, ?_⟩ <;> rw [satisfies]
  case eq | ne => simp
  case gt | lt => simp [compare_gt_iff_gt, compare_lt_iff_lt]
  all_goals
    rcases lt_trichotomy x y with less | rfl | greater
    · simp [compare_lt_iff_lt.2 less, less, less.le]
    · simp
    · simp [compare_gt_iff_gt.2 greater, greater, greater.le]

end Comparison

namespace Predicate

variable {s : QuerySchema} {root : EntityType} {vars : Variables} {context : String}
variable {b : ScalarBinding} {operand : Operand} {operator : FilterOperator} {values : List Json}

/-- The values that an operand supplies an operator with: one to compare with,
or candidates. -/
inductive Supplies (vars : Variables) (context : String) (b : ScalarBinding) (operand : Operand)
    (operator : FilterOperator) : List Json → Prop
  | value {v : Json} (compares : operator.compares = true)
      (coerced : coerce vars context b operand = .ok v) :
      Supplies vars context b operand operator [v]
  | candidates {values : List Json} (list : operator.takesList = true)
      (coerced : candidates vars context b operand = .ok values) :
      Supplies vars context b operand operator values

theorem Supplies.operandFault (h : Supplies vars context b operand operator values) :
    operandFault vars context b operator operand = none := by
  cases h with
  | value compares coerced =>
    obtain ⟨noFlag, noList⟩ := FilterOperator.plain_of_compares compares
    rw [Predicate.operandFault, noFlag, noList]
    exact Outcome.fault_eq_none.2 ⟨_, coerced⟩
  | candidates list coerced =>
    cases operator <;> cases list <;> exact Outcome.fault_eq_none.2 ⟨_, coerced⟩

/-- Each of the values is that of an operand. -/
theorem Supplies.coerced (h : Supplies vars context b operand operator values) :
    ∀ v ∈ values, ∃ o, coerce vars context b o = .ok v := by
  intro v hv
  cases h with
  | value compares coerced =>
    obtain rfl := List.mem_singleton.1 hv
    exact ⟨operand, coerced⟩
  | candidates list coerced =>
    obtain ⟨found, -, items⟩ := Outcome.bind_eq_ok.1 coerced
    obtain ⟨o, -, coerced⟩ := Outcome.exists_of_mem_mapM items hv
    exact ⟨o, coerced⟩

/-- The verdict on a cell says whether the elements that the cell and the
values stand for satisfy the operator. -/
theorem Supplies.verdict {α : Type} [LinearOrder α] {cell : Json} {x : α} {ys : List α}
    (h : Supplies vars context b operand operator values) (native : b.storage = .native)
    (present : cell.isNull = false) (alike : List.Forall₂ (ComparesAs cell x) values ys) :
    ∃ t : Bool, verdict vars context b operator operand cell = .ok (.bool t) ∧
      (t = true ↔ operator.Asks x ys) := by
  cases h with
  | @value v compares coerced =>
    obtain ⟨noFlag, noList⟩ := FilterOperator.plain_of_compares compares
    obtain ⟨y, ys, one, rest, rfl⟩ := List.forall₂_cons_left_iff.1 alike
    obtain rfl := List.forall₂_nil_left_iff.1 rest
    obtain ⟨t, said, asks⟩ := Comparison.verdict_comparesAs compares native present one
    refine ⟨t, ?_, asks⟩
    simp only [Predicate.verdict, noFlag, noList, Bool.false_eq_true, if_false, coerced]
    exact congrArg Except.ok said
  | candidates list coerced =>
    have any := any_isEqual_iff alike
    -- The store looks for a candidate that is equal, and expects to find one or none.
    have said : ∀ expected, Store.membership (Comparison.storedCell b cell)
        (values.map (Comparison.storedValue b)) expected =
          .bool (values.any (isEqual cell) == expected) := by
      intro expected
      rw [Comparison.storedCell_of_native native, Comparison.storedValue_of_native native,
        List.map_id', Store.membership, present]
      rfl
    cases operator <;> cases list <;> simp only [Predicate.verdict, coerced] <;>
      refine ⟨_, congrArg Except.ok (said _), ?_⟩
    · simpa [FilterOperator.Asks] using any
    · simpa [FilterOperator.Asks] using not_congr any

/-! ### Leaves -/

open Planner Joins

/-- The leaf tests a field of scalars, at the end of associations, with an
operator that the scalar supports and these values. -/
inductive Tests (s : QuerySchema) (root : EntityType) (vars : Variables) :
    FilterLeaf → List String → SchemaField → ScalarBinding → FilterOperator → List Json → Prop
  | intro {between : List String} {name : String} {entity : EntityType} {g : SchemaField}
      {b : ScalarBinding} {operator : FilterOperator} {operand : Operand} {values : List Json}
      (reached : s.entityAt root between = some entity) (found : entity.field? name = some g)
      (bound : g.binding = some b) (supported : b.supports operator = true)
      (supplies : Supplies vars (".".intercalate (between ++ [name])) b operand operator values) :
      Tests s root vars ⟨between ++ [name], operator.token, operand⟩ between g b operator values

variable {leaf : FilterLeaf} {between : List String} {g : SchemaField}

theorem Tests.admissible (h : Tests s root vars leaf between g b operator values) :
    Admissible s root vars leaf := by
  obtain ⟨reached, found, bound, supported, supplies⟩ := h
  obtain ⟨filled, accepted⟩ := operandFault_eq_none.1 supplies.operandFault
  exact .mk reached found bound (FilterOperator.ofToken?_token _) supported filled accepted

/-- The condition of the leaf says, in every binding that has a row for its
path, whether the elements that the cell and the values stand for satisfy the
operator. -/
theorem Tests.eval (h : Tests s root vars leaf between g b operator values)
    (native : b.storage = .native) {d : Draft} (sequential : d.parameters.Sequential) :
    ∃ e d', Gives (compileLeaf s root vars leaf) d e d' ∧
      ∀ (binding : Store.Binding) (choice : Choice), AgreesAt d'.joins binding choice between →
        ∀ {α : Type} [LinearOrder α] (x : α) (ys : List α),
          (cellOf (choice between) g.descriptor.column).isNull = false →
          List.Forall₂ (ComparesAs (cellOf (choice between) g.descriptor.column) x) values ys →
            ∃ t : Bool, Store.eval d'.parameters binding e = .ok (.bool t) ∧
              (t = true ↔ operator.Asks x ys) := by
  have noFault := leafFault_eq_none.2 h.admissible
  rw [← fault_compileLeaf leaf d] at noFault
  obtain ⟨e, d', compiled⟩ := fault_eq_none.1 noFault
  refine ⟨e, d', compiled, fun binding choice agrees α _ x ys present alike => ?_⟩
  cases h with
  | @intro _ name _ _ _ _ _ _ reached found bound supported supplies =>
    obtain ⟨t, said, asks⟩ := supplies.verdict native present alike
    refine ⟨t, ?_, asks⟩
    have above : (between ++ [name]).dropLast = between := List.dropLast_concat
    rw [← above] at agrees
    obtain ⟨verdict, value⟩ := eval_compileLeaf compiled sequential agrees
    rw [leafVerdict_concat reached found bound (Planning.ofToken?_token_filter supported), said]
      at verdict
    rw [value, ← Option.some.inj verdict]

end Predicate

/-! ### Root fields -/

namespace Planning

open Planner

variable {s : QuerySchema} {vars : Variables} {field : Document.Field} {plan : RootPlan}
variable {entity : EntityType} {name : String} {g : SchemaField} {b : ScalarBinding}
variable {operator : FilterOperator} {values : List Json}

/-- The test of a field of the root joins nothing. -/
theorem gives_compile_field {operand : Operand} (found : entity.field? name = some g)
    (bound : g.binding = some b) (supported : b.supports operator = true)
    (supplies : Predicate.Supplies vars name b operand operator values) (d : Draft) :
    ∃ e d', Gives (Predicate.compile s entity vars (.leaf ⟨[name], operator.token, operand⟩)) d e
      d' ∧ d'.joins = d.joins := by
  rw [compile_field found bound supported]
  have noFault := supplies.operandFault
  rw [← Predicate.fault_comparison name (.column rootAlias g.descriptor.column) b operator operand
    d] at noFault
  obtain ⟨e, d', compared⟩ := fault_eq_none.1 noFault
  exact ⟨e, d', compared, Keeps.comparison Predicate.cumulative_keepsJoins
    Predicate.keepsJoins_bindValue _ _ _ _ _ _ _ _ _ compared⟩

/-- A root field can be planned under a test of one of its fields, and then
answers the root rows whose elements satisfy the operator, as before. -/
theorem run_tested [Disorder] {value : Document.Value} {schemaName : String}
    {descriptors : List EntityDescriptor} {registry : ScalarRegistry}
    (built : QuerySchema.build schemaName descriptors registry = .ok s)
    (plain : Criteria.isCombinator name = false) (root : s.root? field.name = some entity)
    (unrestricted : field.argument? whereArgument = none)
    (planned : planRootField s vars field = .ok plan)
    (found : entity.field? name = some g) (bound : g.binding = some b)
    (supported : b.supports operator = true) (native : b.storage = .native)
    (supplies : Predicate.Supplies vars name b (.ofValue value) operator values) :
    ∃ plan', planRootField s vars (field.restrictedBy (.tests name operator value)) = .ok plan' ∧
      (∀ {α : Type} [LinearOrder α] (row : Row) (x : α) (ys : List α),
        (cellOf (some row) g.descriptor.column).isNull = false →
        List.Forall₂ (ComparesAs (cellOf (some row) g.descriptor.column) x) values ys →
          (plan'.query.holds row = true ↔ operator.Asks x ys)) ∧
      ∀ (tables : Tables) rootRows limit,
        Keyed.find? tables plan.query.table = some rootRows →
          tables.run (plan.query.limitedTo limit) =
            .ok (Tables.arranged plan.query.order limit
              (rootRows.flatMap (tables.answersFor plan.query))) ∧
          tables.run (plan'.query.limitedTo limit) =
            .ok (Tables.arranged plan.query.order limit
              ((rootRows.filter plan'.query.holds).flatMap (tables.answersFor plan.query))) ∧
          ∀ row, tables.answersFor plan.query row ≠ [] := by
  obtain ⟨plan', planned', filter', runs⟩ := run_tests built plain root unrestricted planned
    (gives_compile_field found bound supported supplies)
  -- The filter is one leaf on the root, so that a row is tested by itself.
  obtain ⟨select', gs', p'⟩ := planOf_of_build built planned' root
  refine ⟨plan', planned', fun row x ys present alike => ?_, runs⟩
  obtain ⟨t, said, asks⟩ := supplies.verdict native present alike
  rw [p'.holds_verdict filter' found bound supported said]
  exact asks

end Planning

end EntityQuery
