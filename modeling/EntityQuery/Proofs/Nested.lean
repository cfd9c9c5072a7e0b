/-
EntityQuery/Proofs/Nested.lean

Criteria inside criteria.

Entries of criteria hold more criteria: the operands of `AND` and `OR`, the
operand of `NOT`, and what is said of an associated entity (`Criteria.Inside`).
Each of them may be given by a variable, whose value is looked through, so
there is no telling from a document how deep its criteria go.  Operands of
operators are no criteria.

Reading looks at all criteria that are inside, one level further down with
each step, and lets them pass if they are proper and there is room left.  This
is all it looks at, so whatever is not proper, or too deep, is a fault, at any
depth (`Criteria.exists_readWithin`).

A filter that was read has no part that is empty, and it is at most two nodes
higher with every level of criteria (`Criteria.solid_readWithin`).  Constants
come from empty groups, so its condition has none
(`Criteria.read_nonvacuous`).
-/
import EntityQuery.Proofs.Condition
import EntityQuery.Proofs.Written

namespace EntityQuery

/-! ### Constants of expressions -/

namespace Expr

mutual

/-- The constants in an expression. -/
def literals : Expr → List Literal
  | .literal value => [value]
  | .column _ _ => []
  | .parameter _ => []
  | .list items => literalsOf items
  | .toText inner => literals inner
  | .locate needle haystack => literals needle ++ literals haystack
  | .sameDocument left right => literals left ++ literals right
  | .apply _ operands => literalsOf operands

/-- The constants in expressions. -/
def literalsOf : List Expr → List Literal
  | [] => []
  | e :: es => literals e ++ literalsOf es

end

theorem literalsOf_eq_flatMap (es : List Expr) : literalsOf es = es.flatMap literals := by
  induction es with
  | nil => rfl
  | cons e es ih => rw [literalsOf, ih, List.flatMap_cons]

variable {columns : String → String → Prop} {e : Expr} {es : List Expr}

theorem Stored.literals (h : Stored columns e) : e.literals = [] := by
  cases h <;> rfl

theorem literalsOf_bound (places : List Nat) : literalsOf (places.map bound) = [] := by
  rw [literalsOf_eq_flatMap, List.flatMap_map]
  exact List.flatMap_eq_nil_iff.2 fun i _ => rfl

/-- A condition that is not vacuous has no truth value in it. -/
theorem Condition.not_mem_literals (h : Condition columns False e) (b : Bool) :
    .boolean b ∉ e.literals := by
  -- A constant is allowed only where vacuous conditions are; everything else has
  -- no truth value in it.
  induction h with
  | constant b' allowed => exact allowed.elim
  | comparison i compares stored =>
    rw [Expr.literals, literalsOf, stored.literals]
    exact List.not_mem_nil
  | membership places tests stored =>
    rw [Expr.literals, literalsOf, stored.literals, literalsOf, Expr.literals, literalsOf_bound]
    exact List.not_mem_nil
  | null tests readable => exact List.not_mem_nil
  | occurrence i readable =>
    intro found
    cases List.mem_singleton.1 found
  | document i readable => exact List.not_mem_nil
  | group connects several each ih =>
    rw [Expr.literals, literalsOf_eq_flatMap]
    intro found
    obtain ⟨e, he, found⟩ := List.mem_flatMap.1 found
    exact ih e he found
  | negation operand ih =>
    rw [Expr.literals, literalsOf, literalsOf, List.append_nil]
    exact ih

end Expr

/-! ### Filters without empty parts -/

namespace Filter

mutual

/-- The number of nodes from the root down to the deepest leaf. -/
def height : Filter → Nat
  | .leaf _ => 1
  | .and children => heightOf children + 1
  | .or children => heightOf children + 1
  | .not child => height child + 1

/-- The height of the highest filter. -/
def heightOf : List Filter → Nat
  | [] => 0
  | f :: fs => max (height f) (heightOf fs)

end

/-- The filter is at most this high, and no part of it is empty. -/
structure Solid (n : Nat) (f : Filter) : Prop where
  grounded : ∀ g ∈ f.nodes, g.Grounded
  height : f.height ≤ n

variable {n m : Nat} {f : Filter} {fs : List Filter}

/-- Filters are as high as the highest of them. -/
theorem heightOf_le : heightOf fs ≤ n ↔ ∀ f ∈ fs, f.height ≤ n := by
  induction fs with
  | nil => exact iff_of_true (Nat.zero_le n) (List.forall_mem_nil _)
  | cons f fs ih => rw [heightOf, Nat.max_le, ih, List.forall_mem_cons]

/-- A filter within a height is within a greater one. -/
theorem Solid.mono (h : f.Solid n) (le : n ≤ m) : f.Solid m := ⟨h.grounded, h.height.trans le⟩

theorem solid_leaf {condition : FilterLeaf} (leads : condition.path ≠ []) :
    (leaf condition).Solid (n + 1) :=
  ⟨List.forall_mem_singleton.2 leads, Nat.le_add_left 1 n⟩

theorem grounded_nodesOf (each : ∀ f ∈ fs, f.Solid n) : ∀ g ∈ nodesOf fs, g.Grounded := by
  rw [nodesOf_eq_flatMap]
  intro g hg
  obtain ⟨f, hf, hg⟩ := List.mem_flatMap.1 hg
  exact (each f hf).grounded g hg

/-- Solid filters joined by AND are solid, one step higher, unless there are
none. -/
theorem solid_and (each : ∀ f ∈ fs, f.Solid n) (some : fs ≠ []) : (Filter.and fs).Solid (n + 1) :=
  ⟨List.forall_mem_cons.2 ⟨some, grounded_nodesOf each⟩,
    Nat.succ_le_succ (heightOf_le.2 fun f hf => (each f hf).height)⟩

theorem solid_or (each : ∀ f ∈ fs, f.Solid n) (some : fs ≠ []) : (Filter.or fs).Solid (n + 1) :=
  ⟨List.forall_mem_cons.2 ⟨some, grounded_nodesOf each⟩,
    Nat.succ_le_succ (heightOf_le.2 fun f hf => (each f hf).height)⟩

theorem solid_not (h : f.Solid n) : (Filter.not f).Solid (n + 1) :=
  ⟨List.forall_mem_cons.2 ⟨trivial, h.grounded⟩, Nat.succ_le_succ h.height⟩

/-- A single filter stands for itself. -/
theorem solid_allOf (each : ∀ f ∈ fs, f.Solid n) (some : fs ≠ []) :
    (Filter.allOf fs).Solid (n + 1) := by
  unfold Filter.allOf
  split
  · exact (each _ List.mem_cons_self).mono (Nat.le_succ n)
  · exact solid_and each some

mutual

/-- Where no part is empty, there are leaves below every part. -/
theorem leaves_ne_nil (f : Filter) (grounded : ∀ g ∈ f.nodes, g.Grounded) :
    ∀ g ∈ f.nodes, g.leaves ≠ [] := by
  cases f with
  | leaf condition => exact List.forall_mem_singleton.2 (List.cons_ne_nil _ _)
  | and children =>
    obtain ⟨here, below⟩ := List.forall_mem_cons.1 grounded
    obtain ⟨each, some⟩ := leavesOf_ne_nil children below
    exact List.forall_mem_cons.2 ⟨some here, each⟩
  | or children =>
    obtain ⟨here, below⟩ := List.forall_mem_cons.1 grounded
    obtain ⟨each, some⟩ := leavesOf_ne_nil children below
    exact List.forall_mem_cons.2 ⟨some here, each⟩
  | not child =>
    have below := leaves_ne_nil child (List.forall_mem_cons.1 grounded).2
    exact List.forall_mem_cons.2 ⟨below child child.mem_nodes, below⟩

/-- Grounded filters all have leaves. -/
theorem leavesOf_ne_nil (fs : List Filter) (grounded : ∀ g ∈ nodesOf fs, g.Grounded) :
    (∀ g ∈ nodesOf fs, g.leaves ≠ []) ∧ (fs ≠ [] → leavesOf fs ≠ []) := by
  cases fs with
  | nil => exact ⟨List.forall_mem_nil _, fun some => absurd rfl some⟩
  | cons f fs =>
    obtain ⟨here, there⟩ := List.forall_mem_append.1 grounded
    have first := leaves_ne_nil f here
    refine ⟨List.forall_mem_append.2 ⟨first, (leavesOf_ne_nil fs there).1⟩, fun _ none => ?_⟩
    exact first f f.mem_nodes (List.append_eq_nil_iff.1 none).1

end

/-- The condition of a filter without empty parts has no truth value in it. -/
theorem Solid.not_mem_literals (h : f.Solid n) {s : QuerySchema} {root : EntityType}
    {vars : Variables} {d d' : Draft} {e : Expr}
    (compiled : Planner.Gives (Predicate.compile s root vars f) d e d') (b : Bool) :
    .boolean b ∉ e.literals := by
  have leaves : ReadsAtLeaves s root vars (fun _ _ => True) (fun _ => True) := by
    intro leaf d d' e h _
    obtain ⟨-, -, -, field, b, op, a, d₁, -, -, -, -, -, -, -, -, comparison⟩ :=
      Predicate.compileLeaf_cases h
    exact ⟨a, field.descriptor.column, b, op, d₁, trivial, comparison⟩
  have condition : Expr.Condition (fun _ _ => True) False e :=
    condition_compile leaves (fun _ _ => trivial) compiled trivial
      fun g hg => .inl (h.grounded g hg)
  exact condition.not_mem_literals b

end Filter

namespace Criteria

open EntityQuery.Filter

variable {vars : Variables} {key : String} {o c c' : Operand} {os : List Operand}
variable {es : List (String × Operand)} {path : List String} {n : Nat}
variable {inner : List String → Operand → Except PlanError Filter}

/-! ### What is inside criteria -/

/-- The criteria that the value of a key holds. -/
inductive Holds (vars : Variables) (key : String) (o : Operand) : Operand → Prop
  | listed {os : List Operand} {c : Operand} (place : Place.of key = .group)
      (seen : o.seen vars = .list os) (inside : c ∈ os) : Holds vars key o c
  | separate {es : List (String × Operand)} {e : String × Operand}
      (place : Place.of key = .group) (seen : o.seen vars = .object es) (inside : e ∈ es) :
      Holds vars key o (.object [e])
  | negated (place : Place.of key = .criteria) : Holds vars key o o
  /-- What is said of an associated entity. -/
  | below {es : List (String × Operand)} (place : Place.of key = .field)
      (seen : o.seen vars = .object es) (association : isLeafGroup es = false) :
      Holds vars key o (.object es)

/-- Criteria that are an entry of others. -/
def Inside (vars : Variables) (o c : Operand) : Prop :=
  ∃ es, o.seen vars = .object es ∧ ∃ e ∈ es, Holds vars e.1 e.2 c

/-- Criteria that are so many levels inside others. -/
inductive Nested (vars : Variables) : Nat → Operand → Operand → Prop
  | here (o : Operand) : Nested vars 0 o o
  | inside {n : Nat} {o c c' : Operand} (first : Inside vars o c) (further : Nested vars n c c') :
      Nested vars (n + 1) o c'

/-- What may be the value of a key: operands, as many as there are; anything,
to be negated; and what is said of a field. -/
inductive Allowed (vars : Variables) (key : String) (o : Operand) : Prop
  | listed {os : List Operand} (place : Place.of key = .group) (seen : o.seen vars = .list os)
      (some : os ≠ [])
  | separate {es : List (String × Operand)} (place : Place.of key = .group)
      (seen : o.seen vars = .object es) (some : es ≠ [])
  | negated (place : Place.of key = .criteria)
  | object {es : List (String × Operand)} (place : Place.of key = .field)
      (seen : o.seen vars = .object es)

/-- There are entries, and none of their values is out of place. -/
def Proper (vars : Variables) (o : Operand) : Prop :=
  ∃ es, o.seen vars = .object es ∧ es ≠ [] ∧ ∀ e ∈ es, Allowed vars e.1 e.2

/-- A group of the criteria has no operands. -/
def LacksOperands (vars : Variables) (o : Operand) : Prop :=
  ∃ es, o.seen vars = .object es ∧ ∃ e ∈ es, Place.of e.1 = .group ∧
    (e.2.seen vars = .list [] ∨ e.2.seen vars = .object [])

/-- An object without members is no proper criteria. -/
theorem not_proper_of_empty (none : o.seen vars = .object []) : ¬ Proper vars o := by
  rintro ⟨es, seen, some, -⟩
  cases none.symm.trans seen
  exact some rfl

theorem not_proper_of_lacksOperands (h : LacksOperands vars o) : ¬ Proper vars o := by
  obtain ⟨es, seen, e, he, place, none⟩ := h
  rintro ⟨es', seen', -, each⟩
  cases seen.symm.trans seen'
  cases each e he with
  | listed place' seen some =>
    rcases none with none | none
    · cases none.symm.trans seen
      exact some rfl
    · cases none.symm.trans seen
  | separate place' seen some =>
    rcases none with none | none
    · cases none.symm.trans seen
    · cases none.symm.trans seen
      exact some rfl
  | negated place' => cases place.symm.trans place'
  | object place' => cases place.symm.trans place'

/-! ### What is read -/

theorem items?_of_seen_object (seen : o.seen vars = .object es) : o.items? vars = .ok none := by
  cases o with
  | «variable» name =>
    cases found : Keyed.find? vars name with
    | none =>
      rw [Operand.seen, found] at seen
      cases seen
    | some value =>
      rw [Operand.seen, found] at seen
      rw [Operand.items?_variable found]
      cases value with
      | object members => rfl
      | null | bool | number | string | array => cases seen
  | constant value => rfl
  | list items => cases seen
  | object members => rfl

/-- The operands of a group are a list, or the entries of an object. -/
theorem groupOperands_iff :
    groupOperands vars path key o = .ok os ↔ os ≠ [] ∧ (o.seen vars = .list os ∨
      ∃ es, o.seen vars = .object es ∧ os = es.map fun e => .object [e]) := by
  rw [groupOperands_eq_ok, List.isEmpty_eq_false_iff, Operand.items?_eq_some]
  refine and_congr_right fun _ => or_congr_right ?_
  constructor
  · rintro ⟨-, es, entries, rfl⟩
    exact ⟨es, Operand.entries_eq_ok.1 entries, rfl⟩
  · rintro ⟨es, seen, rfl⟩
    exact ⟨items?_of_seen_object seen, es, Operand.entries_eq_ok.2 seen, rfl⟩

/-- The criteria that `inner` reads are those that are readable. -/
def ReadsExactly (inner : List String → Operand → Except PlanError Filter)
    (readable : Operand → Prop) : Prop :=
  ∀ path o, (∃ f, inner path o = .ok f) ↔ readable o

section Exactly

variable {readable : Operand → Prop}

/-- The operands of a combinator are read exactly if they may stand there and
what they hold can be read. -/
theorem ReadsExactly.operands (h : ReadsExactly inner readable)
    (place : Place.of key = .group) :
    (∃ fs, readOperands vars inner path key o = .ok fs) ↔
      Allowed vars key o ∧ ∀ c, Holds vars key o c → readable c := by
  -- Operands are a list, or the members of an object one by one; what is seen of
  -- them decides which.
  simp only [readOperands, Outcome.bind_eq_ok, groupOperands_iff]
  constructor
  · rintro ⟨fs, os, ⟨some, seen | ⟨es, seen, rfl⟩⟩, each⟩
    · have each := Outcome.mapM_iff.1 ⟨fs, each⟩
      refine ⟨.listed place seen some, fun c hc => ?_⟩
      cases hc with
      | listed _ seen' inside =>
        cases seen.symm.trans seen'
        exact (h path c).1 (each c inside)
      | separate _ seen' => cases seen.symm.trans seen'
      | negated place' | below place' => cases place.symm.trans place'
    · have each := Outcome.mapM_iff.1 ⟨fs, each⟩
      refine ⟨.separate place seen fun none => some (List.map_eq_nil_iff.2 none), fun c hc => ?_⟩
      cases hc with
      | listed _ seen' => cases seen.symm.trans seen'
      | separate _ seen' inside =>
        cases seen.symm.trans seen'
        exact (h path _).1 (each _ (List.mem_map_of_mem inside))
      | negated place' | below place' => cases place.symm.trans place'
  · rintro ⟨allowed, each⟩
    cases allowed with
    | @listed os _ seen some =>
      obtain ⟨fs, read⟩ := Outcome.mapM_iff.2 fun c hc =>
        (h path c).2 (each c (.listed place seen hc))
      exact ⟨fs, os, ⟨some, .inl seen⟩, read⟩
    | @separate es _ seen some =>
      obtain ⟨fs, read⟩ : ∃ fs, (es.map fun e => Operand.object [e]).mapM (inner path) = .ok fs := by
        refine Outcome.mapM_iff.2 fun c hc => ?_
        obtain ⟨e, he, rfl⟩ := List.mem_map.1 hc
        exact (h path _).2 (each _ (.separate place seen he))
      exact ⟨fs, _, ⟨mt List.map_eq_nil_iff.1 some, .inr ⟨es, seen, rfl⟩⟩, read⟩
    | negated place' | object place' => cases place.symm.trans place'

theorem ReadsExactly.value (h : ReadsExactly inner readable) (place : Place.of key = .field)
    (below : List String) :
    (∃ fs, readValue vars inner below o = .ok fs) ↔
      Allowed vars key o ∧ ∀ c, Holds vars key o c → readable c := by
  simp only [readValue, Outcome.bind_eq_ok, Operand.entries_eq_ok]
  constructor
  · rintro ⟨fs, es, seen, read⟩
    refine ⟨.object place seen, fun c hc => ?_⟩
    cases hc with
    | listed place' | separate place' | negated place' => cases place.symm.trans place'
    | below _ seen' association =>
      cases seen.symm.trans seen'
      rw [association] at read
      obtain ⟨f, read, -⟩ := Outcome.bind_eq_ok.1 read
      exact (h below _).1 ⟨f, read⟩
  · rintro ⟨allowed, each⟩
    cases allowed with
    | listed place' | separate place' | negated place' => cases place.symm.trans place'
    | @object es _ seen =>
      -- Members that are operators hold no criteria; others are criteria of the entity below.
      cases operators : isLeafGroup es with
      | true => exact ⟨_, es, seen, by rw [operators]; rfl⟩
      | false =>
        obtain ⟨f, read⟩ := (h below _).2 (each _ (.below place seen operators))
        exact ⟨[f], es, seen, by rw [operators, if_neg Bool.false_ne_true, read]; rfl⟩

theorem ReadsExactly.negated (h : ReadsExactly inner readable) (place : Place.of key = .criteria) :
    (∃ f, inner path o = .ok f) ↔
      Allowed vars key o ∧ ∀ c, Holds vars key o c → readable c := by
  rw [h path o]
  constructor
  · intro here
    refine ⟨.negated place, fun c hc => ?_⟩
    cases hc with
    | negated _ => exact here
    | listed place' | separate place' | below place' => cases place.symm.trans place'
  · rintro ⟨-, each⟩
    exact each o (.negated place)

/-- An entry is read exactly if its value is allowed and all criteria that it
holds are readable. -/
theorem ReadsExactly.entry (h : ReadsExactly inner readable) :
    (∃ fs, readEntry vars inner path key o = .ok fs) ↔
      Allowed vars key o ∧ ∀ c, Holds vars key o c → readable c := by
  rw [readEntry_eq]
  -- A combinator puts one filter around what was read, which fails for no reason of its own.
  have mapped : ∀ {α : Type} (x : Except PlanError α) (g : α → List Filter),
      (∃ fs, x.map g = .ok fs) ↔ ∃ a, x = .ok a := by
    intro α x g
    cases x with
    | error fault => exact iff_of_false (by simp [Except.map]) (by simp)
    | ok a => exact iff_of_true ⟨g a, rfl⟩ ⟨a, rfl⟩
  by_cases and : key = "AND"
  · rw [if_pos and, mapped]
    exact h.operands (by simp [Place.of, and])
  by_cases or : key = "OR"
  · rw [if_neg and, if_pos or, mapped]
    exact h.operands (by simp [Place.of, or])
  by_cases not : key = "NOT"
  · rw [if_neg and, if_neg or, if_pos not, mapped]
    exact h.negated (by simp [Place.of, not])
  · rw [if_neg and, if_neg or, if_neg not]
    exact h.value (by simp [Place.of, and, or, not]) _

end Exactly

/-- Criteria are read entry by entry, within the depth that is left. -/
theorem readWithin_eq_ok {room : Nat} {f : Filter} :
    readWithin vars (room + 1) path o = .ok f ↔
      ∃ es, o.seen vars = .object es ∧ es ≠ [] ∧ ∃ fss, (es.mapM fun (key, inner) =>
        readEntry vars (readWithin vars room) path key inner) = .ok fss ∧
          Filter.allOf fss.flatten = f := by
  rw [readWithin, Outcome.bind_eq_ok]
  refine exists_congr fun es => and_congr Operand.entries_eq_ok ?_
  cases es with
  | nil =>
    refine iff_of_false ?_ fun h => h.1 rfl
    intro h
    cases h
  | cons e es =>
    rw [and_iff_right (List.cons_ne_nil e es)]
    exact Outcome.bind_eq_ok.trans (exists_congr fun _ => and_congr_right fun _ =>
      Outcome.pure_eq_ok)

/-- **Reading looks at everything, and at nothing else.**  Criteria are read
exactly if all criteria inside them are proper, and none is too deep. -/
theorem exists_readWithin (room : Nat) :
    ReadsExactly (readWithin vars room) fun o =>
      ∀ n c, Nested vars n o c → n < room ∧ Proper vars c := by
  -- Along the depth that is left: going inside uses up one level, on either side.
  induction room with
  | zero =>
    intro path o
    refine iff_of_false ?_ fun h => absurd (h 0 o (.here o)).1 (Nat.lt_irrefl 0)
    rintro ⟨f, h⟩
    cases h
  | succ room ih =>
    intro path o
    simp only [readWithin_eq_ok]
    constructor
    · rintro ⟨f, es, seen, some, fss, each, -⟩ n c nested
      have each := Outcome.mapM_iff.1 ⟨fss, each⟩
      cases nested with
      | here =>
        exact ⟨Nat.succ_pos room, es, seen, some, fun e he => (ih.entry.1 (each e he)).1⟩
      | inside first further =>
        obtain ⟨es', seen', e, he, holds⟩ := first
        cases seen.symm.trans seen'
        obtain ⟨enough, proper⟩ := (ih.entry.1 (each e he)).2 _ holds _ _ further
        exact ⟨Nat.succ_lt_succ enough, proper⟩
    · intro h
      obtain ⟨-, es, seen, some, allowed⟩ := h 0 o (.here o)
      have each : ∀ e ∈ es, ∃ fs,
          readEntry vars (readWithin vars room) path e.1 e.2 = .ok fs := by
        intro e he
        refine ih.entry.2 ⟨allowed e he, fun c holds n c' nested => ?_⟩
        obtain ⟨enough, proper⟩ := h (n + 1) c' (.inside ⟨es, seen, e, he, holds⟩ nested)
        exact ⟨Nat.lt_of_succ_lt_succ enough, proper⟩
      obtain ⟨fss, read⟩ := Outcome.mapM_iff.2 each
      exact ⟨_, es, seen, some, fss, read, rfl⟩

/-! ### Filters that are read -/

/-- Filters that `inner` reads are solid. -/
def ReadsSolid (n : Nat) (inner : List String → Operand → Except PlanError Filter) : Prop :=
  ∀ path o f, inner path o = .ok f → f.Solid n

/-- Operands are read as solid filters, of which there are some. -/
theorem ReadsSolid.operands (h : ReadsSolid n inner) {fs : List Filter}
    (read : readOperands vars inner path key o = .ok fs) : fs ≠ [] ∧ ∀ f ∈ fs, f.Solid n := by
  obtain ⟨os, operands, read⟩ := Outcome.bind_eq_ok.1 read
  have some := (groupOperands_iff.1 operands).1
  constructor
  · rintro rfl
    cases Outcome.mapM_eq_ok.1 read
    exact some rfl
  · intro f hf
    obtain ⟨c, -, read⟩ := Outcome.exists_of_mem_mapM read hf
    exact h path c f read

theorem ReadsSolid.entry (h : ReadsSolid n inner) {fs : List Filter}
    (read : readEntry vars inner path key o = .ok fs) :
    fs ≠ [] ∧ ∀ f ∈ fs, f.Solid (n + 1) := by
  rw [readEntry_eq] at read
  split at read
  · obtain ⟨gs, inside, rfl⟩ := Outcome.map_eq_ok.1 read
    obtain ⟨some, each⟩ := h.operands inside
    exact ⟨List.cons_ne_nil _ _, List.forall_mem_singleton.2 (solid_and each some)⟩
  split at read
  · obtain ⟨gs, inside, rfl⟩ := Outcome.map_eq_ok.1 read
    obtain ⟨some, each⟩ := h.operands inside
    exact ⟨List.cons_ne_nil _ _, List.forall_mem_singleton.2 (solid_or each some)⟩
  split at read
  · obtain ⟨g, inside, rfl⟩ := Outcome.map_eq_ok.1 read
    exact ⟨List.cons_ne_nil _ _, List.forall_mem_singleton.2 (solid_not (h _ _ _ inside))⟩
  obtain ⟨es, -, read⟩ := Outcome.bind_eq_ok.1 read
  split at read
  -- An object of operators has at least one, or it would be read as criteria.
  · next operators =>
    cases read
    constructor
    · intro none
      rw [List.map_eq_nil_iff.1 none] at operators
      cases operators
    · intro f hf
      obtain ⟨e, -, rfl⟩ := List.mem_map.1 hf
      exact solid_leaf (List.append_ne_nil_of_right_ne_nil _ (List.cons_ne_nil _ _))
  · obtain ⟨g, inside, same⟩ := Outcome.bind_eq_ok.1 read
    cases same
    exact ⟨List.cons_ne_nil _ _,
      List.forall_mem_singleton.2 ((h _ _ _ inside).mono (Nat.le_succ n))⟩

/-- Each level of criteria adds a group of its entries and a connective. -/
theorem solid_readWithin (room : Nat) : ReadsSolid (2 * room) (readWithin vars room) := by
  induction room with
  | zero =>
    intro path o f read
    cases read
  | succ room ih =>
    intro path o f read
    obtain ⟨es, -, some, fss, each, rfl⟩ := readWithin_eq_ok.1 read
    have parts : ∀ fs ∈ fss, fs ≠ [] ∧ ∀ f ∈ fs, f.Solid (2 * room + 1) := by
      intro fs hfs
      obtain ⟨e, -, read⟩ := Outcome.exists_of_mem_mapM each hfs
      exact ih.entry read
    refine solid_allOf ?_ ?_
    · intro f hf
      obtain ⟨fs, hfs, hf⟩ := List.mem_flatten.1 hf
      exact (parts fs hfs).2 f hf
    · intro none
      -- The first entry has given filters.
      cases Outcome.mapM_eq_ok.1 each with
      | nil => exact some rfl
      | cons first rest =>
        exact (parts _ List.mem_cons_self).1 (List.flatten_eq_nil_iff.1 none _ List.mem_cons_self)

/-! ### Arguments -/

variable {w : Document.Value}

/-- A where argument without members is no filter; any other is read as
criteria. -/
theorem read_eq_ok {filter : Option Filter} :
    read vars w = .ok filter ↔ ∃ es, (Operand.ofValue w).seen vars = .object es ∧
      ((es = [] ∧ filter = none) ∨ (es ≠ [] ∧ ∃ f,
        readWithin vars (maxCriteriaDepth + 1) [] (.ofValue w) = .ok f ∧ filter = some f)) := by
  rw [read, Outcome.bind_eq_ok]
  refine exists_congr fun es => and_congr Operand.entries_eq_ok ?_
  cases es with
  | nil => simp [Outcome.pure_eq_ok, eq_comm (a := filter)]
  | cons e es =>
    rw [List.isEmpty_cons, if_neg Bool.false_ne_true, Outcome.bind_eq_ok]
    simp [Outcome.pure_eq_ok, eq_comm (a := filter)]

/-- No filter is read from an argument without members alone. -/
theorem read_eq_none : read vars w = .ok none ↔ (Operand.ofValue w).seen vars = .object [] := by
  rw [read_eq_ok]
  constructor
  · rintro ⟨es, seen, ⟨rfl, -⟩ | ⟨-, f, -, none⟩⟩
    · exact seen
    · cases none
  · intro seen
    exact ⟨[], seen, .inl ⟨rfl, rfl⟩⟩

/-- A filter is read as its criteria are. -/
theorem read_eq_some {f : Filter} :
    read vars w = .ok (some f) ↔
      readWithin vars (maxCriteriaDepth + 1) [] (.ofValue w) = .ok f := by
  rw [read_eq_ok]
  constructor
  · rintro ⟨es, -, ⟨-, none⟩ | ⟨-, g, read, same⟩⟩
    · cases none
    · cases same
      exact read
  · intro read
    obtain ⟨es, seen, some, -⟩ := readWithin_eq_ok.1 read
    exact ⟨es, seen, .inr ⟨some, f, read, rfl⟩⟩

/-- An argument is a filter exactly if all its criteria are proper, and none
is too deep. -/
theorem exists_read :
    (∃ f, read vars w = .ok (some f)) ↔
      ∀ n c, Nested vars n (.ofValue w) c → n ≤ maxCriteriaDepth ∧ Proper vars c := by
  simp only [read_eq_some, exists_readWithin (maxCriteriaDepth + 1) [] (.ofValue w),
    Nat.lt_succ_iff]

/-- Nothing is inside an empty object. -/
theorem not_inside_of_empty (none : o.seen vars = .object []) : ¬ Inside vars o c := by
  rintro ⟨es, seen, e, he, -⟩
  cases none.symm.trans seen
  cases he

/-- Criteria that are empty below an argument, or too deep in it, or that have
an empty group, are a fault. -/
theorem error_of_nested (nested : Nested vars n (.ofValue w) c)
    (faulty : maxCriteriaDepth < n ∨ (0 < n ∧ c.seen vars = .object []) ∨ LacksOperands vars c) :
    ∃ fault, read vars w = .error fault := by
  cases result : read vars w with
  | error fault => exact ⟨fault, rfl⟩
  | ok filter =>
    exfalso
    -- A result would say that every criteria below was proper and not too deep.
    cases filter with
    | none =>
      have empty := read_eq_none.1 result
      cases nested with
      | inside first further => exact not_inside_of_empty empty first
      | here =>
        rcases faulty with deep | ⟨below, -⟩ | ⟨es, seen, e, he, -⟩
        · exact absurd deep (Nat.not_lt_zero _)
        · exact absurd below (Nat.lt_irrefl 0)
        · cases empty.symm.trans seen
          cases he
    | some f =>
      obtain ⟨shallow, proper⟩ := exists_read.1 ⟨f, result⟩ n c nested
      rcases faulty with deep | ⟨-, none⟩ | lacking
      · exact absurd deep (Nat.not_lt.2 shallow)
      · exact not_proper_of_empty none proper
      · exact not_proper_of_lacksOperands lacking proper

/-- **A filter restricts something.**  Every part of a filter that was read
leads to a leaf, the filter is not high, and its condition has no constant.
Only an empty object gives no filter, and all criteria give one whose parts are
proper and not too deep; what is empty further down, or too far down, is a
fault. -/
theorem read_nonvacuous (vars : Variables) (w : Document.Value) :
    (∀ f, read vars w = .ok (some f) →
      (∀ g ∈ f.nodes, g.Grounded ∧ g.leaves ≠ []) ∧ f.height ≤ 130 ∧
        ∀ s root vars' d e d', Planner.Gives (Predicate.compile s root vars' f) d e d' →
          ∀ b, .boolean b ∉ e.literals) ∧
      (read vars w = .ok none ↔ (Operand.ofValue w).seen vars = .object []) ∧
      ((∃ f, read vars w = .ok (some f)) ↔
        ∀ n c, Nested vars n (.ofValue w) c → n ≤ maxCriteriaDepth ∧ Proper vars c) ∧
      ∀ n c, Nested vars n (.ofValue w) c →
        (maxCriteriaDepth < n ∨ (0 < n ∧ c.seen vars = .object []) ∨ LacksOperands vars c) →
        ∃ fault, read vars w = .error fault := by
  refine ⟨fun f read => ?_, read_eq_none, exists_read, fun n c => error_of_nested⟩
  have solid : f.Solid (2 * (maxCriteriaDepth + 1)) :=
    solid_readWithin _ _ _ _ (read_eq_some.1 read)
  have leads := f.leaves_ne_nil solid.grounded
  exact ⟨fun g hg => ⟨solid.grounded g hg, leads g hg⟩, solid.height,
    fun s root vars' d e d' compiled => solid.not_mem_literals compiled⟩

end Criteria

/-- In the library a disjunction of criteria from variables is a filter with
leaves, and a negation of nothing is a fault. -/
theorem read_nonvacuous_library :
    (∃ f, Criteria.read Sample.parts Sample.eitherGiven = .ok (some f) ∧ f.leaves ≠ [] ∧
      f.height ≤ 130) ∧
      ∃ fault, Criteria.read [("n", .object [])] (.object [("NOT", .variable "n")]) =
        .error fault := by
  constructor
  · have read : Criteria.read Sample.parts Sample.eitherGiven = .ok (some _) := rfl
    obtain ⟨parts, height, -⟩ :=
      (Criteria.read_nonvacuous Sample.parts Sample.eitherGiven).1 _ read
    exact ⟨_, read, (parts _ (Filter.mem_nodes _)).2, height⟩
  · have inside : Criteria.Inside [("n", .object [])]
        (.ofValue (.object [("NOT", .variable "n")])) (.variable "n") :=
      ⟨_, rfl, ("NOT", .variable "n"), List.mem_cons_self, .negated rfl⟩
    exact (Criteria.read_nonvacuous _ _).2.2.2 1 _ (.inside inside (.here _))
      (.inr (.inl ⟨Nat.one_pos, rfl⟩))

end EntityQuery
