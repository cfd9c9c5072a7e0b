/-
EntityQuery/Proofs/Spelling.lean

Every filter can be written as criteria.

A filter is spelt as objects of one entry each, inside one another
(`Criteria.Spelt`): a group as the list of its operands, and a leaf as its path
down to its operator.  There is little a filter must not be for that
(`Filter.Expressible`).  A name on a path has to be told from the words that
criteria are made of, but it may look like one of them, as `ID` does: what
follows it on the path is an object, and then only a known word is an operator.

Reading takes one level of criteria for every group, every negation and every
name after the first (`Filter.nesting`).  If there is room for them, it gives
back the very filter, whatever the variables are, since those of the operands
are not looked at (`Criteria.read_spelt`).  Nothing is merged on the way: an
object of one entry stands for that entry, so a group of one operand stays the
group that it is.
-/
import EntityQuery.Proofs.Criterion
import EntityQuery.Proofs.Nested

namespace EntityQuery

/-! ### Filters that can be written -/

/-- The leaf tests something with an operator; its path has no words of
criteria, and its operand can be written. -/
structure FilterLeaf.Expressible (leaf : FilterLeaf) : Prop where
  names : ∀ name ∈ leaf.path, Criteria.isCombinator name = false ∧
    ∀ operator : FilterOperator, name ≠ operator.token
  operator : ∃ operator : FilterOperator, leaf.operator = operator.token
  operand : ∃ v, leaf.value = .ofValue v

namespace Filter

/-- No part of the filter is empty, and its leaves can be written. -/
structure Expressible (f : Filter) : Prop where
  grounded : ∀ g ∈ f.nodes, g.Grounded
  leaves : ∀ leaf ∈ f.leaves, leaf.Expressible

/-- The same of several filters. -/
structure AllExpressible (fs : List Filter) : Prop where
  grounded : ∀ g ∈ nodesOf fs, g.Grounded
  leaves : ∀ leaf ∈ leavesOf fs, leaf.Expressible

mutual

/-- The depth of criteria inside criteria when the filter is written down: one
level for each group and negation, and for each name of a path after the
first. -/
def nesting : Filter → Nat
  | .leaf condition => condition.path.length - 1
  | .and children => nestingOf children + 1
  | .or children => nestingOf children + 1
  | .not child => nesting child + 1

/-- The depth of the deepest filter. -/
def nestingOf : List Filter → Nat
  | [] => 0
  | f :: fs => max (nesting f) (nestingOf fs)

end

variable {f : Filter} {fs : List Filter}

theorem Expressible.and (h : (Filter.and fs).Expressible) : fs ≠ [] ∧ AllExpressible fs := by
  obtain ⟨operands, below⟩ := List.forall_mem_cons.1 h.grounded
  exact ⟨operands, below, h.leaves⟩

theorem Expressible.or (h : (Filter.or fs).Expressible) : fs ≠ [] ∧ AllExpressible fs := by
  obtain ⟨operands, below⟩ := List.forall_mem_cons.1 h.grounded
  exact ⟨operands, below, h.leaves⟩

theorem Expressible.not (h : (Filter.not f).Expressible) : f.Expressible :=
  ⟨(List.forall_mem_cons.1 h.grounded).2, h.leaves⟩

theorem AllExpressible.cons (h : AllExpressible (f :: fs)) :
    f.Expressible ∧ AllExpressible fs := by
  obtain ⟨here, there⟩ := List.forall_mem_append.1 h.grounded
  obtain ⟨leaves, leaves'⟩ := List.forall_mem_append.1 h.leaves
  exact ⟨⟨here, leaves⟩, there, leaves'⟩

end Filter

/-! ### Writing them -/

/-- The value at the end of a path of objects with one entry each. -/
def Document.Value.along (path : List String) (value : Document.Value) : Document.Value :=
  path.foldr (fun name inner => .object [(name, inner)]) value

namespace Criteria

open Document

mutual

/-- The filter is written as the value. -/
inductive Spelt : Filter → Value → Prop
  | leaf (path : List String) (operator : String) (operand : Value) :
      Spelt (.leaf ⟨path, operator, .ofValue operand⟩)
        (Value.along path (.object [(operator, operand)]))
  | and {fs : List Filter} {vs : List Value} (each : SpeltEach fs vs) :
      Spelt (.and fs) (.object [("AND", .list vs)])
  | or {fs : List Filter} {vs : List Value} (each : SpeltEach fs vs) :
      Spelt (.or fs) (.object [("OR", .list vs)])
  | not {f : Filter} {v : Value} (operand : Spelt f v) :
      Spelt (.not f) (.object [("NOT", v)])

/-- The filters are written as the values, one by one. -/
inductive SpeltEach : List Filter → List Value → Prop
  | nil : SpeltEach [] []
  | cons {f : Filter} {v : Value} {fs : List Filter} {vs : List Value} (first : Spelt f v)
      (rest : SpeltEach fs vs) : SpeltEach (f :: fs) (v :: vs)

end

mutual

/-- A filter whose operands can be written can be written. -/
theorem exists_spelt (f : Filter) (h : f.Expressible) : ∃ v, Spelt f v := by
  cases f with
  | leaf condition =>
    obtain ⟨path, operator, operand⟩ := condition
    obtain ⟨v, rfl⟩ := (h.leaves _ List.mem_cons_self).operand
    exact ⟨_, .leaf path operator v⟩
  | and children =>
    obtain ⟨vs, each⟩ := exists_speltEach children h.and.2
    exact ⟨_, .and each⟩
  | or children =>
    obtain ⟨vs, each⟩ := exists_speltEach children h.or.2
    exact ⟨_, .or each⟩
  | not child =>
    obtain ⟨v, operand⟩ := exists_spelt child h.not
    exact ⟨_, .not operand⟩

theorem exists_speltEach (fs : List Filter) (h : Filter.AllExpressible fs) :
    ∃ vs, SpeltEach fs vs := by
  cases fs with
  | nil => exact ⟨[], .nil⟩
  | cons f fs =>
    obtain ⟨v, first⟩ := exists_spelt f h.cons.1
    obtain ⟨vs, rest⟩ := exists_speltEach fs h.cons.2
    exact ⟨v :: vs, .cons first rest⟩

end

/-! ### Reading them back -/

variable {vars : Variables} {room : Nat} {path before rest : List String} {key name : String}
variable {o : Operand} {f : Filter}

/-- An object of one entry stands for the filter of that entry. -/
theorem readWithin_single
    (read : readEntry vars (readWithin vars room) path key o = .ok [f]) :
    readWithin vars (room + 1) path (.object [(key, o)]) = .ok f := by
  rw [readWithin_object]
  show ((collect _ _).map Filter.allOf : Except PlanError Filter) = _
  rw [collect_cons, read]
  rfl

/-- The key of a field is no combinator. -/
theorem readEntry_field (plain : isCombinator key = false)
    (inner : List String → Operand → Except PlanError Filter) :
    readEntry vars inner path key o = readValue vars inner (path ++ [key]) o := by
  simp only [isCombinator, Bool.or_eq_false_iff, decide_eq_false_iff_not] at plain
  obtain ⟨⟨noAnd, noOr⟩, noNot⟩ := plain
  rw [readEntry_eq, if_neg noAnd, if_neg noOr, if_neg noNot]

/-- A name before an object is no operator, even if it looks like one. -/
theorem isLeafGroup_name (other : ∀ operator : FilterOperator, name ≠ operator.token)
    (entries : List (String × Operand)) : isLeafGroup [(name, .object entries)] = false := by
  have unknown : FilterOperator.ofToken? name = none :=
    List.find?_eq_none.2 fun operator _ same => other operator (of_decide_eq_true same).symm
  simp [isLeafGroup, isObject, unknown]

theorem ofValue_along (path : List String) (entries : List (String × Value)) :
    ∃ es, Operand.ofValue (Value.along path (.object entries)) = .object es := by
  cases path <;> exact ⟨_, rfl⟩

/-- A path is followed down to its operator. -/
theorem readWithin_along {operator : FilterOperator} {operand : Value}
    (names : ∀ segment ∈ name :: rest, isCombinator segment = false ∧
      ∀ operator : FilterOperator, segment ≠ operator.token) (enough : rest.length < room) :
    readWithin vars room before
        (.ofValue (Value.along (name :: rest) (.object [(operator.token, operand)]))) =
      .ok (.leaf ⟨before ++ name :: rest, operator.token, .ofValue operand⟩) := by
  induction rest generalizing before name room with
  | nil =>
    obtain ⟨room, rfl⟩ := Nat.exists_eq_succ_of_ne_zero (Nat.ne_zero_of_lt enough)
    have plain := (names name List.mem_cons_self).1
    apply readWithin_single
    rw [readEntry_field plain]
    show readValue vars _ _ (.object [(operator.token, .ofValue operand)]) = _
    rw [readValue, Operand.entries, Outcome.ok_bind,
      if_pos (Planning.isLeafGroup_token operator _)]
    rfl
  | cons next rest ih =>
    obtain ⟨room, rfl⟩ := Nat.exists_eq_succ_of_ne_zero (Nat.ne_zero_of_lt enough)
    obtain ⟨⟨plain, -⟩, later⟩ := List.forall_mem_cons.1 names
    have inside := @ih room (before ++ [name]) next later (Nat.lt_of_succ_lt_succ enough)
    rw [List.append_assoc] at inside
    apply readWithin_single
    rw [readEntry_field plain]
    -- The next name comes before an object, so the path goes on.
    obtain ⟨es, object⟩ := ofValue_along rest [(operator.token, operand)]
    have apart : isLeafGroup [(next, Operand.ofValue
        (Value.along rest (.object [(operator.token, operand)])))] = false := by
      rw [object]
      exact isLeafGroup_name (later next List.mem_cons_self).2 es
    show readValue vars _ _ (.object [(next, .ofValue
      (Value.along rest (.object [(operator.token, operand)])))]) = _
    rw [readValue, Operand.entries, Outcome.ok_bind, apart, if_neg Bool.false_ne_true]
    exact Outcome.bind_eq_ok.2 ⟨_, inside, rfl⟩

theorem readOperands_listed {inner : List String → Operand → Except PlanError Filter}
    {os : List Operand} {fs : List Filter} (read : os.mapM (inner path) = .ok fs)
    (operands : fs ≠ []) : readOperands vars inner path key (.list os) = .ok fs := by
  rw [readOperands_list, read, if_neg]
  intro none
  rw [List.isEmpty_iff.1 none] at read
  cases read
  exact operands rfl

mutual

/-- A filter that is written down is read back. -/
theorem readWithin_spelt (f : Filter) {v : Value} (expressible : f.Expressible)
    (spelt : Spelt f v) {room : Nat} (enough : f.nesting < room) :
    readWithin vars room [] (.ofValue v) = .ok f := by
  -- A leaf is spelt along its path, a combinator as an object with one member.
  cases f with
  | leaf condition =>
    obtain ⟨path, operator, operand⟩ := condition
    have leads : path ≠ [] := expressible.grounded _ List.mem_cons_self
    obtain ⟨names, ⟨operator, rfl⟩, -⟩ := expressible.leaves _ List.mem_cons_self
    cases spelt with
    | leaf path token operand =>
      cases path with
      | nil => exact absurd rfl leads
      | cons name rest => exact readWithin_along names enough
  | and children =>
    obtain ⟨room, rfl⟩ := Nat.exists_eq_succ_of_ne_zero (Nat.ne_zero_of_lt enough)
    obtain ⟨operands, below⟩ := expressible.and
    cases spelt with
    | and each =>
      have read := mapM_readWithin_spelt children below each (Nat.lt_of_succ_lt_succ enough)
      apply readWithin_single
      rw [readEntry_eq, if_pos rfl]
      exact Outcome.map_eq_ok.2 ⟨_, readOperands_listed read operands, rfl⟩
  | or children =>
    obtain ⟨room, rfl⟩ := Nat.exists_eq_succ_of_ne_zero (Nat.ne_zero_of_lt enough)
    obtain ⟨operands, below⟩ := expressible.or
    cases spelt with
    | or each =>
      have read := mapM_readWithin_spelt children below each (Nat.lt_of_succ_lt_succ enough)
      apply readWithin_single
      rw [readEntry_eq, if_neg (by decide), if_pos rfl]
      exact Outcome.map_eq_ok.2 ⟨_, readOperands_listed read operands, rfl⟩
  | not child =>
    obtain ⟨room, rfl⟩ := Nat.exists_eq_succ_of_ne_zero (Nat.ne_zero_of_lt enough)
    cases spelt with
    | not operand =>
      have read := readWithin_spelt child expressible.not operand (Nat.lt_of_succ_lt_succ enough)
      apply readWithin_single
      rw [readEntry_eq, if_neg (by decide), if_neg (by decide), if_pos rfl]
      exact Outcome.map_eq_ok.2 ⟨_, read, rfl⟩

theorem mapM_readWithin_spelt (fs : List Filter) {vs : List Value}
    (expressible : Filter.AllExpressible fs) (spelt : SpeltEach fs vs) {room : Nat}
    (enough : Filter.nestingOf fs < room) :
    (Operand.ofValues vs).mapM (readWithin vars room []) = .ok fs := by
  cases fs with
  | nil =>
    cases spelt
    rfl
  | cons f fs =>
    cases spelt with
    | cons first rest =>
      obtain ⟨here, there⟩ := expressible.cons
      obtain ⟨room₁, room₂⟩ := Nat.max_lt.1 enough
      rw [Operand.ofValues, List.mapM_cons, readWithin_spelt f here first room₁, Outcome.ok_bind,
        mapM_readWithin_spelt fs there rest room₂]
      rfl

end

/-- **Criteria can express every filter.**  A filter without empty parts, whose
leaves can be written, can be written down, and if it is not nested too deeply
it is what is read back, whatever the variables are. -/
theorem read_spelt {f : Filter} (expressible : f.Expressible)
    (shallow : f.nesting ≤ maxCriteriaDepth) :
    (∃ v, Spelt f v) ∧ ∀ v, Spelt f v → ∀ vars, read vars v = .ok (some f) :=
  ⟨exists_spelt f expressible, fun _ spelt _ =>
    read_eq_some.2 (readWithin_spelt f expressible spelt (Nat.lt_succ_of_le shallow))⟩

end Criteria

/-! ### The small library -/

/-- The mentor of a writer has a certain ISNI. -/
def Sample.mentored : Filter := .leaf ⟨["mentor", "ISNI"], "EQ", .variable "isni"⟩

/-- Among writers, the negation of a group of one operand is read as written,
with a field that looks like an operator and a variable without a value. -/
theorem read_spelt_library :
    Criteria.read [] (.object [("NOT", .object [("AND", .list [.object [("mentor",
      .object [("ISNI", .object [("EQ", .variable "isni")])])]])])]) =
        .ok (some (.not (.and [Sample.mentored]))) := by
  have leaf : FilterLeaf.Expressible ⟨["mentor", "ISNI"], "EQ", .variable "isni"⟩ := by
    refine ⟨List.forall_mem_cons.2 ⟨⟨by decide, ?_⟩, List.forall_mem_singleton.2
      ⟨by decide, ?_⟩⟩, ⟨.eq, rfl⟩, .variable "isni", rfl⟩
    · intro operator
      cases operator <;> decide
    · intro operator
      cases operator <;> decide
  have expressible : Filter.Expressible (.not (.and [Sample.mentored])) := by
    refine ⟨?_, List.forall_mem_singleton.2 leaf⟩
    simp [Filter.nodes, Filter.nodesOf, Filter.Grounded, Sample.mentored]
  have shallow : Filter.nesting (.not (.and [Sample.mentored])) ≤ Criteria.maxCriteriaDepth := by
    decide
  exact (Criteria.read_spelt expressible shallow).2 _
    (.not (.and (.cons (.leaf ["mentor", "ISNI"] "EQ" (.variable "isni")) .nil))) []

end EntityQuery
