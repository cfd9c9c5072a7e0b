/-
EntityQuery/Proofs/Condition.lean

The conditions that filters compile to.

Of the expressions there are, filters use few (`Expr.Condition`): tests of one
column against bound values, the connectives over conditions, and a constant
for a group that is empty.  Each test is the work of one operator of a field
(`condition_comparison`); the tree of the filter only puts connectives on top
(`condition_compile`).

So where no group of a filter is empty, there is no constant in its condition
(`Filter.Grounded`).
-/
import EntityQuery.Proofs.Meaning

namespace EntityQuery

open Planner

/-! ### Inside a filter -/

namespace Filter

mutual

/-- The filter and all filters inside it. -/
def nodes : Filter → List Filter
  | .leaf condition => [.leaf condition]
  | .and children => .and children :: nodesOf children
  | .or children => .or children :: nodesOf children
  | .not child => .not child :: nodes child

/-- The filters and all filters inside them. -/
def nodesOf : List Filter → List Filter
  | [] => []
  | f :: fs => nodes f ++ nodesOf fs

end

/-- A leaf leads somewhere, and a group has operands. -/
def Grounded : Filter → Prop
  | .leaf condition => condition.path ≠ []
  | .and children => children ≠ []
  | .or children => children ≠ []
  | .not _ => True

theorem mem_nodes (f : Filter) : f ∈ f.nodes := by
  cases f <;> exact List.mem_cons_self

theorem nodesOf_eq_flatMap (fs : List Filter) : nodesOf fs = fs.flatMap nodes := by
  induction fs with
  | nil => rfl
  | cons f fs ih => rw [nodesOf, ih, List.flatMap_cons]

end Filter

/-! ### Conditions -/

/-- The operator compares two values. -/
def Operator.Compares : Operator → Prop
  | .equal | .notEqual | .lessThan | .greaterThan | .lessThanEqual | .greaterThanEqual
  | .like => True
  | _ => False

namespace Expr

/-- A column that may be read, or its text. -/
inductive Stored (columns : String → String → Prop) : Expr → Prop
  | column {a name : String} (readable : columns a name) : Stored columns (.column a name)
  | text {a name : String} (readable : columns a name) :
      Stored columns (.toText (.column a name))

/-- The value that was bound at a place. -/
def bound (i : Nat) : Expr := .parameter (Parameters.nameAt i)

/-- The conditions of filters over the columns that may be read.  Constants
come from groups without operands and stand only where such groups are let
through. -/
inductive Condition (columns : String → String → Prop) (vacuous : Prop) : Expr → Prop
  | constant (b : Bool) (allowed : vacuous) : Condition columns vacuous (.literal (.boolean b))
  | comparison {operator : Operator} {e : Expr} (i : Nat) (compares : operator.Compares)
      (stored : Stored columns e) : Condition columns vacuous (.apply operator [e, bound i])
  /-- One of the values, or none of them; there may be no values. -/
  | membership {operator : Operator} {e : Expr} (places : List Nat)
      (tests : operator = .oneOf ∨ operator = .noneOf) (stored : Stored columns e) :
      Condition columns vacuous (.apply operator [e, .list (places.map bound)])
  | null {operator : Operator} {a name : String}
      (tests : operator = .isNull ∨ operator = .isNotNull) (readable : columns a name) :
      Condition columns vacuous (.apply operator [.column a name])
  /-- A text that occurs has a place. -/
  | occurrence {a name : String} (i : Nat) (readable : columns a name) :
      Condition columns vacuous (.apply .greaterThan
        [.locate (bound i) (.toText (.column a name)), .literal (.integer 0)])
  | document {a name : String} (i : Nat) (readable : columns a name) :
      Condition columns vacuous (.sameDocument (.toText (.column a name)) (bound i))
  /-- A single operand stands for itself, so a connective has several. -/
  | group {operator : Operator} {es : List Expr} (connects : operator = .and ∨ operator = .or)
      (several : 2 ≤ es.length) (each : ∀ e ∈ es, Condition columns vacuous e) :
      Condition columns vacuous (.apply operator es)
  | negation {e : Expr} (operand : Condition columns vacuous e) :
      Condition columns vacuous (.apply .not [e])

variable {columns : String → String → Prop} {vacuous : Prop} {es : List Expr}

/-- Conditions that all have to hold are a condition; without any it is
vacuous. -/
theorem Condition.allOf (each : ∀ e ∈ es, Condition columns vacuous e)
    (some : es = [] → vacuous) : Condition columns vacuous (.allOf es) := by
  match es with
  | [] => exact .constant true (some rfl)
  | [e] => exact each e List.mem_cons_self
  | e₁ :: e₂ :: es => exact .group (.inl rfl) (Nat.le_add_left 2 es.length) each

/-- Conditions of which one has to hold are a condition; without any it is
vacuous. -/
theorem Condition.anyOf (each : ∀ e ∈ es, Condition columns vacuous e)
    (some : es = [] → vacuous) : Condition columns vacuous (.anyOf es) := by
  match es with
  | [] => exact .constant false (some rfl)
  | [e] => exact each e List.mem_cons_self
  | e₁ :: e₂ :: es => exact .group (.inr rfl) (Nat.le_add_left 2 es.length) each

end Expr

/-! ### Conditions of fields -/

section Fields

open EntityQuery.Comparison EntityQuery.Expr

variable {columns : String → String → Prop} {vacuous : Prop}
variable {d d' : Draft} {e : Expr} {b : ScalarBinding} {a name : String}

/-- A bound value is read by a numbered name. -/
theorem bound_bindValue {value : Json} (h : Gives (bindValue value) d e d') :
    ∃ i, e = bound i :=
  ⟨_, (gives_bindValue.1 h).1⟩

theorem bound_bindValues {values : List Json} {es : List Expr}
    (h : Gives (bindValues values) d es d') : ∃ places : List Nat, es = places.map bound := by
  simp only [bindValues] at h
  induction values generalizing d es with
  | nil =>
    obtain ⟨rfl, rfl⟩ := gives_pure.1 h
    exact ⟨[], rfl⟩
  | cons value values ih =>
    rw [List.mapM_cons] at h
    obtain ⟨e, d₁, first, h⟩ := gives_bind.1 h
    obtain ⟨es, d₂, others, h⟩ := gives_bind.1 h
    obtain ⟨rfl, rfl⟩ := gives_pure.1 h
    obtain ⟨i, rfl⟩ := bound_bindValue first
    obtain ⟨places, rfl⟩ := ih others
    exact ⟨i :: places, rfl⟩

variable (readable : columns a name)

include readable

theorem stored_storedColumn : Stored columns (storedColumn b (.column a name)) := by
  simp only [storedColumn]
  cases b.storage with
  | native => exact .column readable
  | encoded => exact .text readable

/-- A test for null is a condition. -/
theorem condition_nullCheck (isNull : Bool) :
    Condition columns vacuous (nullCheck (.column a name) isNull) := by
  refine .null ?_ readable
  cases isNull with
  | true => exact .inl rfl
  | false => exact .inr rfl

theorem condition_compareWith {operator : Operator} {value : Json}
    (h : Gives (compareWith operator b (.column a name) value) d e d')
    (compares : operator.Compares) : Condition columns vacuous e := by
  obtain ⟨right, d₁, step, h⟩ := gives_bind.1 h
  obtain ⟨rfl, rfl⟩ := gives_pure.1 h
  obtain ⟨i, rfl⟩ := bound_bindValue step
  exact .comparison i compares (stored_storedColumn readable)

theorem condition_membership {values : List Json} {negated : Bool}
    (h : Gives (Comparison.membership b (.column a name) values negated) d e d') :
    Condition columns vacuous e := by
  obtain ⟨candidates, d₁, step, h⟩ := gives_bind.1 h
  obtain ⟨rfl, rfl⟩ := gives_pure.1 h
  obtain ⟨places, rfl⟩ := bound_bindValues step
  refine .membership places ?_ (stored_storedColumn readable)
  cases negated with
  | true => exact .inr rfl
  | false => exact .inl rfl

/-- Every operator that a leaf can use makes a condition. -/
theorem condition_translate {operator : FilterOperator} {value : Json}
    (h : Gives (Comparison.translate b (.column a name) operator value) d e d') :
    Condition columns vacuous e := by
  -- Operators fall into tests for null, comparisons with a bound value, and the two searches.
  cases operator <;> simp only [Comparison.translate] at h
  case eq | ne =>
    split at h
    · obtain ⟨rfl, rfl⟩ := gives_pure.1 h
      exact condition_nullCheck readable _
    · exact condition_compareWith readable h trivial
  case gt | ge | lt | le | like => exact condition_compareWith readable h trivial
  case locate =>
    obtain ⟨needle, d₁, step, h⟩ := gives_bind.1 h
    obtain ⟨rfl, rfl⟩ := gives_pure.1 h
    obtain ⟨i, rfl⟩ := bound_bindValue step
    exact .occurrence i readable
  case contains =>
    obtain ⟨right, d₁, step, h⟩ := gives_bind.1 h
    obtain ⟨rfl, rfl⟩ := gives_pure.1 h
    obtain ⟨i, rfl⟩ := bound_bindValue step
    exact .document i readable
  case oneOf | noneOf => exact condition_membership readable h
  case isNull | notNull =>
    obtain ⟨rfl, rfl⟩ := gives_pure.1 h
    exact condition_nullCheck readable _

/-- The condition of a field tests its column. -/
theorem condition_comparison {vars : Variables} {field : String} {operator : FilterOperator}
    {operand : Operand}
    (h : Gives (Predicate.comparison vars field (.column a name) b operator operand) d e d') :
    Condition columns vacuous e := by
  simp only [Predicate.comparison] at h
  split at h
  · obtain ⟨given, d₁, step, h⟩ := gives_bind.1 h
    obtain ⟨rfl, rfl⟩ := gives_pure.1 h
    exact condition_nullCheck readable _
  split at h
  · obtain ⟨values, d₁, step, h⟩ := gives_bind.1 h
    exact condition_membership readable h
  · obtain ⟨value, d₁, step, h⟩ := gives_bind.1 h
    exact condition_translate readable h

end Fields

/-! ### Conditions of filters -/

section Filters

open EntityQuery.Predicate EntityQuery.Expr

variable {s : QuerySchema} {root : EntityType} {vars : Variables}
variable {columns : String → String → Prop} {vacuous : Prop} {good : Draft → Prop}

/-- From good drafts, leaves read columns that may be read. -/
def ReadsAtLeaves (s : QuerySchema) (root : EntityType) (vars : Variables)
    (columns : String → String → Prop) (good : Draft → Prop) : Prop :=
  ∀ {leaf : FilterLeaf} {d d' : Draft} {e : Expr}, Gives (compileLeaf s root vars leaf) d e d' →
    good d → ∃ a name b op d₁, columns a name ∧
      Gives (comparison vars (".".intercalate leaf.path) (.column a name) b op leaf.value) d₁ e d'

/-- Compiling a filter leads from good drafts to good ones. -/
def StaysGood (s : QuerySchema) (root : EntityType) (vars : Variables) (good : Draft → Prop) :
    Prop :=
  ∀ {f : Filter} {d d' : Draft} {e : Expr}, Gives (compile s root vars f) d e d' → good d → good d'

mutual

/-- A filter compiles to a condition, without constants if no group in it is
empty. -/
theorem condition_compile (leaves : ReadsAtLeaves s root vars columns good)
    (stays : StaysGood s root vars good) {f : Filter} {d d' : Draft} {e : Expr}
    (h : Gives (compile s root vars f) d e d') (start : good d)
    (grounded : ∀ g ∈ f.nodes, g.Grounded ∨ vacuous) : Condition columns vacuous e := by
  cases f with
  | leaf condition =>
    rw [compile] at h
    obtain ⟨a, name, b, op, d₁, readable, comparison⟩ := leaves h start
    exact condition_comparison readable comparison
  | and children =>
    rw [compile] at h
    obtain ⟨es, d₁, parts, h⟩ := gives_bind.1 h
    obtain ⟨rfl, rfl⟩ := gives_pure.1 h
    -- An empty combinator compiles to a constant, which is a condition only where vacuous ones are.
    obtain ⟨here, below⟩ := List.forall_mem_cons.1 grounded
    obtain ⟨each, some⟩ := condition_compileAll leaves stays parts start below
    exact .allOf each fun none => here.resolve_left fun some' => some' (some none)
  | or children =>
    rw [compile] at h
    obtain ⟨es, d₁, parts, h⟩ := gives_bind.1 h
    obtain ⟨rfl, rfl⟩ := gives_pure.1 h
    obtain ⟨here, below⟩ := List.forall_mem_cons.1 grounded
    obtain ⟨each, some⟩ := condition_compileAll leaves stays parts start below
    exact .anyOf each fun none => here.resolve_left fun some' => some' (some none)
  | not child =>
    rw [compile] at h
    obtain ⟨e, d₁, part, h⟩ := gives_bind.1 h
    obtain ⟨rfl, rfl⟩ := gives_pure.1 h
    have below := (List.forall_mem_cons.1 grounded).2
    exact .negation (condition_compile leaves stays part start below)

/-- Filters compile to conditions, one for each, if their leaves do. -/
theorem condition_compileAll (leaves : ReadsAtLeaves s root vars columns good)
    (stays : StaysGood s root vars good) {fs : List Filter} {d d' : Draft} {es : List Expr}
    (h : Gives (compileAll s root vars fs) d es d') (start : good d)
    (grounded : ∀ g ∈ Filter.nodesOf fs, g.Grounded ∨ vacuous) :
    (∀ e ∈ es, Condition columns vacuous e) ∧ (es = [] → fs = []) := by
  cases fs with
  | nil =>
    obtain ⟨rfl, rfl⟩ := gives_pure.1 h
    exact ⟨List.forall_mem_nil _, fun _ => rfl⟩
  | cons f fs =>
    rw [compileAll] at h
    obtain ⟨e, d₁, first, h⟩ := gives_bind.1 h
    obtain ⟨es, d₂, others, h⟩ := gives_bind.1 h
    obtain ⟨rfl, rfl⟩ := gives_pure.1 h
    obtain ⟨here, there⟩ := List.forall_mem_append.1 grounded
    have one := condition_compile leaves stays first start here
    have more := (condition_compileAll leaves stays others (stays first start) there).1
    refine ⟨List.forall_mem_cons.2 ⟨one, more⟩, ?_⟩
    intro none
    cases none

end

end Filters

end EntityQuery
