/-
EntityQuery/Proofs/Reached.lean

Leaves at the field that their path leads to.

A path leads over associations to a field of scalars
(`QuerySchema.LeadsTo`), and the leaf of a filter with this path compares the
column of the field.  Compiling the leaf first goes the way to the field,
which joins what has to be joined, never fails, and looks neither at the
operand nor at the variables (`LeadsTo.exists_way`).  Then it compiles the
comparison.  So whether the leaf compiles is a matter of the operand alone
(`LeadsTo.exists_compiled`), and where it is compiled it says of a row what
the operator says of the cell (`LeadsTo.eval`).
-/
import EntityQuery.Proofs.Admissible

namespace EntityQuery

open Planner Store Joins

/-! ### The way to a field -/

/-- The path leads over the associations in `between` to a field of
scalars. -/
inductive QuerySchema.LeadsTo (s : QuerySchema) (root : EntityType) :
    List String → List String → SchemaField → ScalarBinding → Prop
  | intro {between : List String} {name : String} {entity : EntityType} {g : SchemaField}
      {b : ScalarBinding} (reached : s.entityAt root between = some entity)
      (found : entity.field? name = some g) (bound : g.binding = some b) :
      LeadsTo s root (between ++ [name]) between g b

/-- A binding has the row that is chosen for the root if it has it under the
root's alias. -/
theorem Joins.agreesAt_root {joins : Joins} {binding : Binding} {choice : Choice}
    (h : Keyed.find? binding rootAlias = some (choice [])) : AgreesAt joins binding choice [] := by
  intro tableAlias found
  cases (aliasOf?_nil joins).symm.trans found
  exact h

/-- Steps after the same step are the same if they are on its outcomes. -/
theorem Planner.bind_congr_of_gives {α β : Type} {x : Planner α} {f f' : α → Planner β}
    (h : ∀ d a d', Gives x d a d' → f a = f' a) : x >>= f = x >>= f' := by
  funext d
  show ExceptT.bindCont f (x.run d).1 (x.run d).2 = ExceptT.bindCont f' (x.run d).1 (x.run d).2
  cases run : (x.run d).1 with
  | error e => rfl
  | ok a => exact congrFun (h d a (x.run d).2 (Prod.ext run rfl)) _

namespace Predicate

variable {s : QuerySchema} {root last : EntityType} {name : String} {g : SchemaField}
variable {b : ScalarBinding} {operator : FilterOperator}

/-- The rest of a path to a field of scalars is gone first, and then the field
is compared. -/
theorem exists_way_from (found : last.field? name = some g) (bound : g.binding = some b)
    (supported : b.supports operator = true) {between before : List String} {entity : EntityType}
    (reached : s.entityAt entity between = some last) (at_ : s.entityAt root before = some entity) :
    ∃ way : String → Planner String,
      (∀ tableAlias vars operand, compileFrom s vars operator.token operand entity tableAlias before
          (between ++ [name]) = way tableAlias >>= fun a =>
        comparison vars (".".intercalate (before ++ between ++ [name]))
          (.column a g.descriptor.column) b operator operand) ∧
      ∀ tableAlias d, aliasOf? d.joins before = some tableAlias → ∃ a d₁,
        Gives (way tableAlias) d a d₁ ∧ aliasOf? d₁.joins (before ++ between) = some a ∧
          d₁.parameters = d.parameters := by
  induction between generalizing entity before with
  | nil =>
    obtain rfl : entity = last := Option.some.inj reached
    refine ⟨pure, fun tableAlias vars operand => ?_, fun tableAlias d joined => ?_⟩
    · rw [pure_bind, List.append_nil, List.nil_append]
      unfold compileFrom
      simp only [found, bound, FilterOperator.ofToken?_token, Option.filter_some, supported,
        if_true]
    · refine ⟨tableAlias, d, gives_pure.2 ⟨rfl, rfl⟩, ?_, rfl⟩
      rwa [List.append_nil]
  | cons segment rest ih =>
    -- The way goes over the association first, and on from its target.
    have step : (s.follow entity segment).bind (s.entityAt · rest) = some last := reached
    obtain ⟨target, leads, onward⟩ := Option.bind_eq_some_iff.1 step
    obtain ⟨A, association, rfl⟩ := Option.map_eq_some_iff.1 leads
    obtain ⟨isField, scalar, leads, -⟩ := s.association?_eq_some.1 association
    have there : s.entityAt root (before ++ [segment]) = some A.target := by
      rw [s.entityAt_concat, s.associationAt_concat, at_, Option.bind_some, association]
      rfl
    obtain ⟨way, same, goes⟩ := ih onward there
    refine ⟨fun tableAlias => join s entity tableAlias (before ++ [segment]) A.field >>= fun next =>
      way next.1, fun tableAlias vars operand => ?_, fun tableAlias d joined => ?_⟩
    · obtain ⟨next, others, more⟩ := List.exists_cons_of_ne_nil
        (List.append_ne_nil_of_right_ne_nil rest (List.cons_ne_nil name []))
      rw [bind_assoc, List.cons_append]
      unfold compileFrom
      simp only [isField, scalar, more]
      refine bind_congr_of_gives fun d outcome d' join => ?_
      obtain ⟨_, _, leads', -, target, -⟩ := gives_join.1 join
      obtain rfl := Option.some.inj (leads.symm.trans leads')
      rw [target, ← more, same, List.append_assoc before, List.singleton_append]
    · obtain ⟨next, joins, added⟩ : ∃ next joins, d.joins.add (before ++ [segment])
          A.field.descriptor tableAlias entity.idColumn A.target.descriptor.qualifiedTable
          A.target.idColumn = (next, joins) := ⟨_, _, rfl⟩
      have join : Gives (join s entity tableAlias (before ++ [segment]) A.field) d
        (next, A.target) { d with joins := joins } :=
        gives_join.2 ⟨A.target, joins, leads, added, rfl, rfl⟩
      obtain ⟨-, joined, -⟩ := join.join at_ joined isField scalar
      obtain ⟨a, d₁, gone, joined, unbound⟩ := goes next _ joined
      refine ⟨a, d₁, gives_bind.2 ⟨_, _, join, gone⟩, ?_, unbound⟩
      rwa [← List.append_cons] at joined

/-- A membership test takes its candidates, and then looks among them. -/
theorem comparison_of_takesList (list : operator.takesList = true) {vars : Variables}
    {field : String} {column : Expr} {operand : Operand} :
    comparison vars field column b operator operand =
      (liftM (candidates vars field b operand) : Planner (List Json)) >>= fun values =>
        Comparison.membership b column values (decide (operator = .noneOf)) := by
  have noFlag : operator.takesFlag = false := by cases operator <;> first | rfl | cases list
  rw [comparison, noFlag, list]
  rfl

end Predicate

namespace QuerySchema.LeadsTo

open Predicate

variable {s : QuerySchema} {root : EntityType} {path between : List String} {g : SchemaField}
variable {b : ScalarBinding} {operator : FilterOperator} {vars : Variables} {operand : Operand}
variable {d d' : Draft} {e : Expr} {choice : Choice} {binding : Binding}

/-- A leaf goes the way to its field, whatever its operand is, and compares
the field. -/
theorem exists_way (h : s.LeadsTo root path between g b) (supported : b.supports operator = true) :
    ∃ way : Planner String,
      (∀ vars operand, compileLeaf s root vars ⟨path, operator.token, operand⟩ = way >>= fun a =>
        comparison vars (".".intercalate path) (.column a g.descriptor.column) b operator
          operand) ∧
      ∀ d, ∃ a d₁, Gives way d a d₁ ∧ aliasOf? d₁.joins between = some a ∧
        d₁.parameters = d.parameters := by
  cases h with
  | @intro _ name _ _ _ reached found bound =>
    obtain ⟨way, same, goes⟩ := exists_way_from found bound supported reached (s.entityAt_nil root)
    refine ⟨way rootAlias, fun vars operand => ?_, fun d => goes rootAlias d (aliasOf?_nil _)⟩
    have present : ¬(between ++ [name]).isEmpty = true := by simp
    rw [compileLeaf, if_neg present]
    exact same rootAlias vars operand

/-- The comparison that a leaf is compiled to. -/
theorem compared (h : s.LeadsTo root path between g b) (supported : b.supports operator = true)
    (compiled : Gives (compileLeaf s root vars ⟨path, operator.token, operand⟩) d e d') :
    ∃ a d₁, aliasOf? d'.joins between = some a ∧ d₁.parameters = d.parameters ∧
      Gives (comparison vars (".".intercalate path) (.column a g.descriptor.column) b operator
        operand) d₁ e d' := by
  obtain ⟨way, same, goes⟩ := h.exists_way supported
  rw [same] at compiled
  obtain ⟨a, d₁, gone, compared⟩ := gives_bind.1 compiled
  obtain ⟨_, _, gone', joined, unbound⟩ := goes d
  cases gone.symm.trans gone'
  have joins : d'.joins = d₁.joins :=
    Keeps.comparison cumulative_keepsJoins keepsJoins_bindValue _ _ _ _ _ _ _ _ _ compared
  exact ⟨a, d₁, joins ▸ joined, unbound, compared⟩

/-- A leaf compiles if its operator takes the operand. -/
theorem exists_compiled (h : s.LeadsTo root path between g b)
    (supported : b.supports operator = true)
    (taken : operandFault vars (".".intercalate path) b operator operand = none) (d : Draft) :
    ∃ e d', Gives (compileLeaf s root vars ⟨path, operator.token, operand⟩) d e d' := by
  obtain ⟨way, same, goes⟩ := h.exists_way supported
  obtain ⟨a, d₁, gone, -, -⟩ := goes d
  rw [← fault_comparison _ (.column a g.descriptor.column) b operator operand d₁] at taken
  obtain ⟨e, d', compared⟩ := fault_eq_none.1 taken
  exact ⟨e, d', same vars operand ▸ gives_bind.2 ⟨a, d₁, gone, compared⟩⟩

/-- A membership test compiles by its candidates, wherever they come from. -/
theorem exists_membership (h : s.LeadsTo root path between g b)
    (supported : b.supports operator = true) (list : operator.takesList = true) :
    ∃ test : List Json → Planner Expr, ∀ vars operand d e d',
      Gives (compileLeaf s root vars ⟨path, operator.token, operand⟩) d e d' ↔
        ∃ values, candidates vars (".".intercalate path) b operand = .ok values ∧
          Gives (test values) d e d' := by
  obtain ⟨way, same, -⟩ := h.exists_way supported
  refine ⟨fun values => way >>= fun a => Comparison.membership b
    (.column a g.descriptor.column) values (decide (operator = .noneOf)),
    fun vars operand d e d' => ?_⟩
  rw [same, gives_bind]
  simp only [comparison_of_takesList list, gives_bind, gives_lift]
  constructor
  · rintro ⟨a, d₁, gone, values, _, ⟨given, rfl⟩, tested⟩
    exact ⟨values, given, a, d₁, gone, tested⟩
  · rintro ⟨values, given, a, d₁, gone, tested⟩
    exact ⟨a, d₁, gone, values, d₁, ⟨given, rfl⟩, tested⟩

/-- Of the row that is chosen for its path, a leaf says what its operator says
of the cell. -/
theorem eval (h : s.LeadsTo root path between g b) (supported : b.supports operator = true)
    (compiled : Gives (compileLeaf s root vars ⟨path, operator.token, operand⟩) d e d')
    (sequential : d.parameters.Sequential) (agrees : AgreesAt d'.joins binding choice between) :
    ∃ v, verdict vars (".".intercalate path) b operator operand
        (cellOf (choice between) g.descriptor.column) = .ok v ∧
      Store.eval d'.parameters binding e = .ok v := by
  obtain ⟨a, d₁, joined, unbound, compared⟩ := h.compared supported compiled
  rw [← unbound] at sequential
  exact eval_comparison compared sequential (columnValue_of_find? (agrees a joined) _)

end QuerySchema.LeadsTo

theorem Sample.title_leadsTo : schema.LeadsTo books ["title"] [] (text "title")
    (.plain "String" "Built-in String" .text) := by
  show schema.LeadsTo books ([] ++ ["title"]) _ _ _
  exact .intro rfl rfl rfl

end EntityQuery
