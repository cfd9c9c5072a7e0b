/-
EntityQuery/Proofs/Written.lean

What a client writes in criteria is what restricts the rows.

`Criteria.Written` goes through criteria as a client reads them, with the
schema at hand: an entry under the name of a scalar field holds operators, one
under the name of an association holds criteria of the entity it leads to, and
`AND`, `OR` and `NOT` hold more criteria of the same entity; a variable is
looked through.  Reading goes by form alone and guesses from the words what is
an operator.  A wrong guess gives leaves that lead to no scalar field, so where
all leaves do, reading has found what is written (`Criteria.Spells`), in every
stage and from the innermost criteria outwards.

A root field keeps to its first `where` argument, so of several ones only the
first restricts the rows (`Planning.filter_written`).
-/
import EntityQuery.Proofs.Admissible
import EntityQuery.Proofs.Ordered

namespace EntityQuery

/-! ### Looking through a variable -/

/-- The operand itself, or the value of the variable that it is. -/
def Operand.seen (vars : Variables) : Operand → Operand
  | .variable name =>
    match Keyed.find? vars name with
    | some value => .ofJson value
    | none => .variable name
  | o => o

theorem Operand.entries_eq_ok {vars : Variables} {context : String} {o : Operand}
    {es : List (String × Operand)} :
    o.entries vars context = .ok es ↔ o.seen vars = .object es := by
  cases o with
  | «variable» name =>
    cases found : Keyed.find? vars name with
    | none =>
      simp only [entries, seen, variableValue, found]
      constructor
      · intro h
        cases h
      · intro h
        cases h
    | some value =>
      rw [entries_variable found]
      simp only [seen, found]
      cases value <;> simp [ofJson, entries]
  | constant value => simp [entries, seen]
  | list items => simp [entries, seen]
  | object members => simp [entries, seen]

theorem Operand.items?_eq_some {vars : Variables} {o : Operand} {os : List Operand} :
    o.items? vars = .ok (some os) ↔ o.seen vars = .list os := by
  cases o with
  | «variable» name =>
    cases found : Keyed.find? vars name with
    | none =>
      simp only [items?, seen, variableValue, found]
      constructor
      · intro h
        cases h
      · intro h
        cases h
    | some value =>
      rw [items?_variable found]
      simp only [seen, found]
      cases value <;> simp [ofJson, items?]
  | constant value => simp [items?, seen]
  | list items => simp [items?, seen]
  | object members => simp [items?, seen]

/-! ### Places of a schema -/

/-- The path leads over associations to a scalar field. -/
def QuerySchema.ScalarAt (s : QuerySchema) (root : EntityType) (path : List String) : Prop :=
  ∃ before name entity field, path = before ++ [name] ∧ s.entityAt root before = some entity ∧
    entity.field? name = some field ∧ field.binding.isSome

namespace QuerySchema

variable {s : QuerySchema} {root : EntityType} {path rest : List String} {name : String}

/-- A path ends with a scalar field or with an association. -/
theorem ScalarAt.associationAt (h : s.ScalarAt root path) : s.associationAt root path = none := by
  obtain ⟨before, name, entity, field, rfl, reached, found, scalar⟩ := h
  rw [s.associationAt_concat, reached, Option.bind_some, association?, found]
  exact if_pos scalar

theorem entityAt_append (p q : List String) :
    s.entityAt root (p ++ q) = (s.entityAt root p).bind (s.entityAt · q) := by
  simp only [entityAt]
  exact List.foldlM_append

/-- What comes before the end of a path are associations. -/
theorem ScalarAt.above (h : s.ScalarAt root (path ++ name :: rest)) :
    ∃ entity, s.entityAt root path = some entity := by
  obtain ⟨before, last, entity, field, same, reached, -, -⟩ := h
  -- The path is a part of what comes before the last name.
  have prefixed : path <+: before := by
    have longer : path <+: before ++ [last] := ⟨name :: rest, same⟩
    refine List.prefix_of_prefix_length_le longer (List.prefix_append _ _) ?_
    have lengths := congrArg List.length same
    simp only [List.length_append, List.length_cons, List.length_nil] at lengths
    omega
  obtain ⟨between, rfl⟩ := prefixed
  rw [entityAt_append] at reached
  obtain ⟨entity, found, -⟩ := Option.bind_eq_some_iff.1 reached
  exact ⟨entity, found⟩

end QuerySchema

/-- A leaf that compiles is at a scalar field. -/
theorem Predicate.Admissible.scalarAt {s : QuerySchema} {root : EntityType} {vars : Variables}
    {leaf : FilterLeaf} (h : Admissible s root vars leaf) : s.ScalarAt root leaf.path := by
  obtain ⟨reached, found, scalar, -, -, -, -⟩ := h
  exact ⟨_, _, _, _, rfl, reached, found, Option.isSome_iff_exists.2 ⟨_, scalar⟩⟩

namespace Criteria

/-! ### What is written -/

/-- The parts of criteria. -/
inductive Piece where
  | criteria (o : Operand)
  | entries (es : List (String × Operand))
  | entry (key : String) (o : Operand)
  | operands (os : List Operand)

/-- The piece has no parts. -/
def Piece.isEmpty : Piece → Bool
  | .entries es => es.isEmpty
  | .operands os => os.isEmpty
  | _ => false

/-- At a path, the piece of criteria writes these operators, from left to
right. -/
inductive Written (s : QuerySchema) (root : EntityType) (vars : Variables) :
    List String → Piece → List FilterLeaf → Prop
  | criteria {path : List String} {o : Operand} {es : List (String × Operand)}
      {leaves : List FilterLeaf} (seen : o.seen vars = .object es)
      (entries : Written s root vars path (.entries es) leaves) :
      Written s root vars path (.criteria o) leaves
  | nil {path : List String} : Written s root vars path (.entries []) []
  | cons {path : List String} {key : String} {o : Operand} {es : List (String × Operand)}
      {leaves leaves' : List FilterLeaf} (first : Written s root vars path (.entry key o) leaves)
      (rest : Written s root vars path (.entries es) leaves') :
      Written s root vars path (.entries ((key, o) :: es)) (leaves ++ leaves')
  /-- The operands of `AND` or `OR` in a list. -/
  | listed {path : List String} {key : String} {o : Operand} {os : List Operand}
      {leaves : List FilterLeaf} (place : Place.of key = .group) (seen : o.seen vars = .list os)
      (operands : Written s root vars path (.operands os) leaves) :
      Written s root vars path (.entry key o) leaves
  /-- The operands of `AND` or `OR` as the entries of one object. -/
  | separate {path : List String} {key : String} {o : Operand} {es : List (String × Operand)}
      {leaves : List FilterLeaf} (place : Place.of key = .group) (seen : o.seen vars = .object es)
      (entries : Written s root vars path (.entries es) leaves) :
      Written s root vars path (.entry key o) leaves
  /-- The operand of `NOT`. -/
  | negated {path : List String} {key : String} {o : Operand} {leaves : List FilterLeaf}
      (place : Place.of key = .criteria)
      (operand : Written s root vars path (.criteria o) leaves) :
      Written s root vars path (.entry key o) leaves
  /-- The operators of a scalar field. -/
  | operators {path : List String} {key : String} {o : Operand} {es : List (String × Operand)}
      (place : Place.of key = .field) (scalar : s.ScalarAt root (path ++ [key]))
      (seen : o.seen vars = .object es) :
      Written s root vars path (.entry key o)
        (es.map fun (operator, operand) => ⟨path ++ [key], operator, operand⟩)
  /-- The criteria of the entity that an association leads to. -/
  | within {path : List String} {key : String} {o : Operand} {leaves : List FilterLeaf}
      (place : Place.of key = .field)
      (association : (s.associationAt root (path ++ [key])).isSome)
      (criteria : Written s root vars (path ++ [key]) (.criteria o) leaves) :
      Written s root vars path (.entry key o) leaves
  | none {path : List String} : Written s root vars path (.operands []) []
  | more {path : List String} {o : Operand} {os : List Operand} {leaves leaves' : List FilterLeaf}
      (first : Written s root vars path (.criteria o) leaves)
      (rest : Written s root vars path (.operands os) leaves') :
      Written s root vars path (.operands (o :: os)) (leaves ++ leaves')

/-- The operators that arguments write; a literal null writes nothing. -/
inductive WrittenArguments (s : QuerySchema) (root : EntityType) (vars : Variables) :
    List (String × Document.Value) → List FilterLeaf → Prop
  | nil : WrittenArguments s root vars [] []
  | null {name : String} {rest : List (String × Document.Value)} {leaves : List FilterLeaf}
      (later : WrittenArguments s root vars rest leaves) :
      WrittenArguments s root vars ((name, .null) :: rest) leaves
  | value {name : String} {v : Document.Value} {rest : List (String × Document.Value)}
      {leaves leaves' : List FilterLeaf} (some : v ≠ .null)
      (first : Written s root vars [] (.criteria (.ofValue v)) leaves)
      (later : WrittenArguments s root vars rest leaves') :
      WrittenArguments s root vars ((name, v) :: rest) (leaves ++ leaves')

variable {s : QuerySchema} {root : EntityType} {vars : Variables} {path : List String}
variable {piece : Piece} {leaves leaves' : List FilterLeaf}

/-- A piece is read in one way. -/
theorem Written.unique (h : Written s root vars path piece leaves)
    (h' : Written s root vars path piece leaves') : leaves = leaves' := by
  -- The key and what is seen below it decide which shape is written.
  induction h generalizing leaves' with
  | criteria seen entries ih =>
    cases h' with
    | criteria seen' entries' =>
      cases seen.symm.trans seen'
      exact ih entries'
  | nil =>
    cases h'
    rfl
  | cons first rest ih ih' =>
    cases h' with
    | cons first' rest' => rw [ih first', ih' rest']
  | listed place seen operands ih =>
    cases h' with
    | listed place' seen' operands' =>
      cases seen.symm.trans seen'
      exact ih operands'
    | separate place' seen' entries' => cases seen.symm.trans seen'
    | negated place' | operators place' | within place' => cases place.symm.trans place'
  | separate place seen entries ih =>
    cases h' with
    | listed place' seen' operands' => cases seen.symm.trans seen'
    | separate place' seen' entries' =>
      cases seen.symm.trans seen'
      exact ih entries'
    | negated place' | operators place' | within place' => cases place.symm.trans place'
  | negated place operand ih =>
    cases h' with
    | negated place' operand' => exact ih operand'
    | listed place' | separate place' | operators place' | within place' =>
      cases place.symm.trans place'
  | operators place scalar seen =>
    cases h' with
    | operators place' scalar' seen' =>
      cases seen.symm.trans seen'
      rfl
    | within place' association' criteria' =>
      rw [scalar.associationAt] at association'
      cases association'
    | listed place' | separate place' | negated place' => cases place.symm.trans place'
  | within place association criteria ih =>
    cases h' with
    | operators place' scalar' seen' =>
      rw [scalar'.associationAt] at association
      cases association
    | within place' association' criteria' => exact ih criteria'
    | listed place' | separate place' | negated place' => cases place.symm.trans place'
  | none =>
    cases h'
    rfl
  | more first rest ih ih' =>
    cases h' with
    | more first' rest' => rw [ih first', ih' rest']

theorem WrittenArguments.unique {arguments : List (String × Document.Value)}
    (h : WrittenArguments s root vars arguments leaves)
    (h' : WrittenArguments s root vars arguments leaves') : leaves = leaves' := by
  induction h generalizing leaves' with
  | nil =>
    cases h'
    rfl
  | null later ih =>
    cases h' with
    | null later' => exact ih later'
    | value some' => exact absurd rfl some'
  | value some first later ih =>
    cases h' with
    | null later' => exact absurd rfl some
    | value some' first' later' => rw [first.unique first', ih later']

/-! ### What is read -/

/-- The leaves are what the piece writes, unless one of them is at no scalar
field; they are below the path, and there are some if the piece has parts. -/
structure Spells (s : QuerySchema) (root : EntityType) (vars : Variables) (path : List String)
    (piece : Piece) (leaves : List FilterLeaf) : Prop where
  some : piece.isEmpty = false → leaves ≠ []
  below : ∀ leaf ∈ leaves, ∃ name rest, leaf.path = path ++ name :: rest
  written : (∀ leaf ∈ leaves, s.ScalarAt root leaf.path) → Written s root vars path piece leaves

variable {key : String} {o : Operand} {os : List Operand} {es : List (String × Operand)}

/-- A piece that writes what another one writes. -/
theorem Spells.of {piece' : Piece} (h : Spells s root vars path piece leaves)
    (parts : piece'.isEmpty = false → piece.isEmpty = false)
    (written : Written s root vars path piece leaves → Written s root vars path piece' leaves) :
    Spells s root vars path piece' leaves where
  some some := h.some (parts some)
  below := h.below
  written scalar := written (h.written scalar)

/-- A piece that writes what two others write, one after the other. -/
theorem Spells.append {piece' whole : Piece} (first : Spells s root vars path piece leaves)
    (some : piece.isEmpty = false) (rest : Spells s root vars path piece' leaves')
    (written : Written s root vars path piece leaves → Written s root vars path piece' leaves' →
      Written s root vars path whole (leaves ++ leaves')) :
    Spells s root vars path whole (leaves ++ leaves') where
  some _ none := first.some some (List.append_eq_nil_iff.1 none).1
  below := List.forall_mem_append.2 ⟨first.below, rest.below⟩
  written scalar :=
    have scalar := List.forall_mem_append.1 scalar
    written (first.written scalar.1) (rest.written scalar.2)

theorem Spells.nil : Spells s root vars path (.entries []) [] where
  some h := by cases h
  below := List.forall_mem_nil _
  written _ := .nil

theorem Spells.cons (first : Spells s root vars path (.entry key o) leaves)
    (rest : Spells s root vars path (.entries es) leaves') :
    Spells s root vars path (.entries ((key, o) :: es)) (leaves ++ leaves') :=
  first.append rfl rest .cons

theorem Spells.none : Spells s root vars path (.operands []) [] where
  some h := by cases h
  below := List.forall_mem_nil _
  written _ := .none

theorem Spells.more (first : Spells s root vars path (.criteria o) leaves)
    (rest : Spells s root vars path (.operands os) leaves') :
    Spells s root vars path (.operands (o :: os)) (leaves ++ leaves') :=
  first.append rfl rest .more

/-- Entries that are read as operators. -/
theorem Spells.operators (place : Place.of key = .field) (seen : o.seen vars = .object es)
    (some : es.isEmpty = false) : Spells s root vars path (.entry key o)
      (es.map fun (operator, operand) => ⟨path ++ [key], operator, operand⟩) where
  some _ none := by
    rw [List.map_eq_nil_iff.1 none] at some
    cases some
  below leaf hl := by
    obtain ⟨e, -, rfl⟩ := List.mem_map.1 hl
    exact ⟨key, [], rfl⟩
  written scalar := by
    cases es with
    | nil => cases some
    | cons e es => exact .operators place (scalar _ List.mem_cons_self) seen

/-- Entries that are read as criteria below. -/
theorem Spells.within (place : Place.of key = .field) (seen : o.seen vars = .object es)
    (h : Spells s root vars (path ++ [key]) (.criteria (.object es)) leaves) :
    Spells s root vars path (.entry key o) leaves where
  some _ := h.some rfl
  below leaf hl := by
    obtain ⟨name, rest, below⟩ := h.below leaf hl
    exact ⟨key, name :: rest, by rw [below, List.append_assoc]; rfl⟩
  written scalar := by
    -- A leaf further down shows that the entry is an association.
    have association : (s.associationAt root (path ++ [key])).isSome := by
      obtain ⟨leaf, hl⟩ := List.exists_mem_of_ne_nil _ (h.some rfl)
      obtain ⟨name, rest, below⟩ := h.below leaf hl
      have further := scalar leaf hl
      rw [below] at further
      obtain ⟨entity, reached⟩ := further.above
      rw [s.entityAt_concat] at reached
      exact Option.isSome_iff_exists.2 ((Option.map_eq_some_iff.1 reached).imp fun _ h => h.1)
    cases h.written scalar with
    | criteria seen' entries =>
      cases seen'
      exact .within place association (.criteria seen entries)

/-- An object of one entry is that entry. -/
theorem Spells.single (h : Spells s root vars path (.criteria (.object [(key, o)])) leaves) :
    Spells s root vars path (.entry key o) leaves := by
  refine h.of (fun _ => rfl) fun written => ?_
  cases written with
  | criteria seen entries =>
    cases seen
    cases entries with
    | cons first rest =>
      cases rest
      rw [List.append_nil]
      exact first

theorem leaves_allOf (fs : List Filter) : (Filter.allOf fs).leaves = Filter.leavesOf fs := by
  unfold Filter.allOf
  split
  · rw [Filter.leavesOf, Filter.leavesOf, List.append_nil]
  · rfl

theorem leavesOf_append (fs gs : List Filter) :
    Filter.leavesOf (fs ++ gs) = Filter.leavesOf fs ++ Filter.leavesOf gs := by
  rw [Filter.leavesOf_eq_flatMap, Filter.leavesOf_eq_flatMap, Filter.leavesOf_eq_flatMap,
    List.flatMap_append]

theorem leavesOf_leaf (conditions : List FilterLeaf) :
    Filter.leavesOf (conditions.map .leaf) = conditions := by
  rw [Filter.leavesOf_eq_flatMap, List.flatMap_map]
  exact List.flatMap_singleton' conditions

section Reading

variable {inner : List String → Operand → Except PlanError Filter}

/-- Whatever is read of criteria is what they spell. -/
def ReadsSpelt (s : QuerySchema) (root : EntityType) (vars : Variables)
    (inner : List String → Operand → Except PlanError Filter) : Prop :=
  ∀ path o f, inner path o = .ok f → Spells s root vars path (.criteria o) f.leaves

theorem spells_operands (h : ReadsSpelt s root vars inner) {fs : List Filter}
    (read : os.mapM (inner path) = .ok fs) :
    Spells s root vars path (.operands os) (Filter.leavesOf fs) := by
  have pairs := Outcome.mapM_eq_ok.1 read
  clear read
  induction pairs with
  | nil => exact .none
  | cons first rest ih => exact .more (h _ _ _ first) ih

/-- The entries of an object, each as criteria of its own. -/
theorem spells_separate (h : ReadsSpelt s root vars inner) {fs : List Filter}
    (read : (es.map fun e => Operand.object [e]).mapM (inner path) = .ok fs) :
    Spells s root vars path (.entries es) (Filter.leavesOf fs) := by
  have pairs := List.forall₂_map_left_iff.1 (Outcome.mapM_eq_ok.1 read)
  clear read
  induction pairs with
  | nil => exact .nil
  | cons first rest ih => exact .cons (h _ _ _ first).single ih

theorem spells_group (h : ReadsSpelt s root vars inner) {fs : List Filter}
    (place : Place.of key = .group) (read : readOperands vars inner path key o = .ok fs) :
    Spells s root vars path (.entry key o) (Filter.leavesOf fs) := by
  obtain ⟨os, operands, read⟩ := Outcome.bind_eq_ok.1 read
  obtain ⟨some, listed | ⟨-, es, separate, rfl⟩⟩ := groupOperands_eq_ok.1 operands
  · have seen := Operand.items?_eq_some.1 listed
    exact (spells_operands h read).of (fun _ => some) (.listed place seen)
  · have seen := Operand.entries_eq_ok.1 separate
    rw [List.isEmpty_map] at some
    exact (spells_separate h read).of (fun _ => some) (.separate place seen)

theorem spells_value (h : ReadsSpelt s root vars inner) {fs : List Filter}
    (place : Place.of key = .field) (read : readValue vars inner (path ++ [key]) o = .ok fs) :
    Spells s root vars path (.entry key o) (Filter.leavesOf fs) := by
  obtain ⟨es, entries, read⟩ := Outcome.bind_eq_ok.1 read
  have seen := Operand.entries_eq_ok.1 entries
  split at read
  · next operators =>
    cases read
    have some : es.isEmpty = false := by
      rw [isLeafGroup, Bool.and_eq_true, Bool.not_eq_true'] at operators
      exact operators.1
    -- Every operator of the group is one leaf at the same path.
    have listed : Filter.leavesOf (es.map fun (operator, operand) =>
        Filter.leaf ⟨path ++ [key], operator, operand⟩) =
          es.map fun (operator, operand) => ⟨path ++ [key], operator, operand⟩ := by
      rw [← leavesOf_leaf (es.map _), List.map_map]
      rfl
    rw [listed]
    exact .operators place seen some
  · obtain ⟨f, inside, same⟩ := Outcome.bind_eq_ok.1 read
    cases same
    rw [Filter.leavesOf, Filter.leavesOf, List.append_nil]
    exact .within place seen (h _ _ _ inside)

/-- An entry is read as what it spells. -/
theorem spells_entry (h : ReadsSpelt s root vars inner) {fs : List Filter}
    (read : readEntry vars inner path key o = .ok fs) :
    Spells s root vars path (.entry key o) (Filter.leavesOf fs) := by
  rw [readEntry_eq] at read
  split at read
  · next and =>
    obtain ⟨gs, inside, rfl⟩ := Outcome.map_eq_ok.1 read
    rw [Filter.leavesOf, Filter.leavesOf, Filter.leaves, List.append_nil]
    exact spells_group h (by simp [Place.of, and]) inside
  split at read
  · next or =>
    obtain ⟨gs, inside, rfl⟩ := Outcome.map_eq_ok.1 read
    rw [Filter.leavesOf, Filter.leavesOf, Filter.leaves, List.append_nil]
    exact spells_group h (by simp [Place.of, or]) inside
  split at read
  · next not =>
    obtain ⟨f, inside, rfl⟩ := Outcome.map_eq_ok.1 read
    rw [Filter.leavesOf, Filter.leavesOf, Filter.leaves, List.append_nil]
    exact (h _ _ _ inside).of (fun _ => rfl) (.negated (by simp [Place.of, not]))
  · next and or not => exact spells_value h (by simp [Place.of, and, or, not]) read

theorem spells_entries (h : ReadsSpelt s root vars inner) {fss : List (List Filter)}
    (read : es.mapM (fun (key, o) => readEntry vars inner path key o) = .ok fss) :
    Spells s root vars path (.entries es) (Filter.leavesOf fss.flatten) := by
  have pairs := Outcome.mapM_eq_ok.1 read
  clear read
  induction pairs with
  | nil => exact .nil
  | cons first rest ih =>
    rw [List.flatten_cons, leavesOf_append]
    exact .cons (spells_entry h first) ih

end Reading

/-- Criteria are read as what they spell, however deep they are. -/
theorem spells_readWithin (room : Nat) : ReadsSpelt s root vars (readWithin vars room) := by
  induction room with
  | zero =>
    intro path o f read
    cases read
  | succ room ih =>
    intro path o f read
    obtain ⟨es, entries, read⟩ := Outcome.bind_eq_ok.1 read
    have seen := Operand.entries_eq_ok.1 entries
    split at read
    · obtain ⟨_, read, -⟩ := Outcome.bind_eq_ok.1 read
      cases read
    · next some =>
      obtain ⟨fss, inside, same⟩ := Outcome.bind_eq_ok.1 read
      cases same
      rw [leaves_allOf]
      have some : es.isEmpty = false := by simpa using some
      exact (spells_entries ih inside).of (fun _ => some) (.criteria seen)

/-- An argument is read as what it writes; a filter has leaves. -/
theorem written_of_read {value : Document.Value} {filter : Option Filter}
    (read : Criteria.read vars value = .ok filter)
    (scalar : ∀ f, filter = some f → ∀ leaf ∈ f.leaves, s.ScalarAt root leaf.path) :
    Written s root vars [] (.criteria (.ofValue value)) (filter.elim [] Filter.leaves) ∧
      ∀ f, filter = some f → f.leaves ≠ [] := by
  obtain ⟨es, entries, read⟩ := Outcome.bind_eq_ok.1 read
  split at read
  · next none =>
    cases read
    rw [List.isEmpty_iff.1 none] at entries
    exact ⟨.criteria (Operand.entries_eq_ok.1 entries) .nil, by simp⟩
  · obtain ⟨f, inside, same⟩ := Outcome.bind_eq_ok.1 read
    cases same
    have spelt : Spells s root vars [] (.criteria (.ofValue value)) f.leaves :=
      spells_readWithin _ _ _ _ inside
    refine ⟨spelt.written (scalar f rfl), fun g same => ?_⟩
    cases same
    exact spelt.some rfl

end Criteria

/-! ### Root fields -/

namespace Planning

open Criteria

variable {s : QuerySchema} {vars : Variables} {field : Document.Field} {plan : RootPlan}

/-- A filter that compiles has its leaves at scalar fields. -/
theorem scalarAt_of_compile {entity : EntityType} {f : Filter} {d d' : Draft} {e : Expr}
    (compiled : Planner.Gives (Predicate.compile s entity vars f) d e d') :
    ∀ leaf ∈ f.leaves, s.ScalarAt entity leaf.path := by
  have faultless := Planner.fault_eq_none.2 ⟨e, d', compiled⟩
  rw [Predicate.fault_compile, List.findSome?_eq_none_iff] at faultless
  exact fun leaf hl => (Predicate.leafFault_eq_none.1 (faultless leaf hl)).scalarAt

/-- The first argument is read as what it writes. -/
theorem written_of_filterOf {entity : EntityType} {filter : Option Filter}
    (only : ∀ argument ∈ field.arguments, argument.1 = whereArgument)
    (filtered : filterOf vars field = .ok filter)
    (scalar : ∀ f, filter = some f → ∀ leaf ∈ f.leaves, s.ScalarAt entity leaf.path) :
    WrittenArguments s entity vars (field.arguments.take 1) (filter.elim [] Filter.leaves) ∧
      ∀ f, filter = some f → f.leaves ≠ [] := by
  simp only [filterOf, Document.Field.argument?] at filtered
  cases arguments : field.arguments with
  | nil =>
    rw [arguments] at filtered
    cases filtered
    exact ⟨.nil, by simp⟩
  | cons argument rest =>
    obtain ⟨name, value⟩ := argument
    obtain rfl : name = whereArgument := only (name, value) (arguments ▸ List.mem_cons_self)
    rw [arguments, List.lookup_cons_self] at filtered
    show WrittenArguments s entity vars [(whereArgument, value)] _ ∧ _
    -- A null is no filter, and no criteria are written in it.
    by_cases null : value = .null
    · subst null
      cases filtered
      exact ⟨.null .nil, by simp⟩
    · have read : Criteria.read vars value = .ok filter := by
        split at filtered
        · next h => cases h
        · next h => exact absurd (Option.some.inj h) null
        · next h =>
          cases h
          exact filtered
      obtain ⟨written, some⟩ := written_of_read read scalar
      refine ⟨?_, some⟩
      rw [← List.append_nil (filter.elim [] Filter.leaves)]
      exact .value null written .nil

/-- **Every criterion that is written restricts the rows.**  The leaves of the
filter of a planned root field are the operators that its first argument
writes, each with the path and the operand that it was written with, in order;
the query has a condition exactly if there are any. -/
theorem filter_written (planned : planRootField s vars field = .ok plan) :
    ∃ entity, s.root? field.name = some entity ∧
      (∀ argument ∈ field.arguments, argument.1 = whereArgument) ∧
      (∀ leaves, WrittenArguments s entity vars (field.arguments.take 1) leaves ↔
        leaves = plan.filter.elim [] Filter.leaves) ∧
      (plan.query.filter = none ↔ plan.filter.elim [] Filter.leaves = []) := by
  obtain ⟨entity, d, d', root, only, -, filtered, compiled, -⟩ := planRootField_iff.1 planned
  have only : ∀ argument ∈ field.arguments, argument.1 = whereArgument := by
    simpa using List.find?_eq_none.1 only
  -- The filter and the condition are there together, or neither is.
  have both : (plan.filter = none ∧ plan.query.filter = none) ∨
      ∃ f e d, plan.filter = some f ∧ plan.query.filter = some e ∧
        Planner.Gives (Predicate.compile s entity vars f) d e d' := by
    cases filter : plan.filter with
    | none =>
      rw [filter] at compiled
      exact .inl ⟨rfl, (Planner.gives_pure.1 compiled).1.symm⟩
    | some f =>
      rw [filter] at compiled
      obtain ⟨e, d₁, compiles, same⟩ := Planner.gives_bind.1 compiled
      obtain ⟨condition, rfl⟩ := Planner.gives_pure.1 same
      exact .inr ⟨f, e, d, rfl, condition.symm, compiles⟩
  have scalar : ∀ f, plan.filter = some f → ∀ leaf ∈ f.leaves, s.ScalarAt entity leaf.path := by
    intro f filter
    rcases both with ⟨none, -⟩ | ⟨f', e, d, filter', -, compiles⟩
    · cases none.symm.trans filter
    · cases filter.symm.trans filter'
      exact scalarAt_of_compile compiles
  obtain ⟨written, some⟩ := written_of_filterOf only filtered scalar
  refine ⟨entity, root, only, fun leaves => ⟨fun h => h.unique written, ?_⟩, ?_⟩
  · rintro rfl
    exact written
  · rcases both with ⟨none, noCondition⟩ | ⟨f, e, d, filter, condition, -⟩
    · rw [none, noCondition]
      exact iff_of_true rfl rfl
    · rw [filter, condition]
      exact iff_of_false (Option.some_ne_none e) (some f filter)

end Planning

/-! ### The small library -/

namespace Sample

/-- Books called `x` whose author is found by criteria in a variable, or that
have no identifier. -/
def manifold : Document.Field :=
  .mk none "books" [("where", .object [("title", .object [("EQ", .string "x")]),
      ("OR", .list [.object [("author", .variable "a")],
        .object [("NOT", .object [("id", .object [("NOT_NULL", .boolean true)])])]])])]
    [.mk none "select" [] [leaf "title"]]

/-- The criteria in the variable. -/
def supplied : Variables :=
  [("a", .object [("name", .object [("LIKE", .string "y%"), ("NE", .string "yves")])])]

end Sample

/-- In the library, the criteria write four operators. -/
theorem filter_written_library :
    ∃ plan, Planning.planRootField Sample.schema Sample.supplied Sample.manifold = .ok plan ∧
      plan.query.filter ≠ none ∧
      Criteria.WrittenArguments Sample.schema Sample.books Sample.supplied
        Sample.manifold.arguments
        [⟨["title"], "EQ", .constant (.string "x")⟩,
          ⟨["author", "name"], "LIKE", .constant (.string "y%")⟩,
          ⟨["author", "name"], "NE", .constant (.string "yves")⟩,
          ⟨["id"], "NOT_NULL", .constant (.bool true)⟩] := by
  have planned : Planning.planRootField Sample.schema Sample.supplied Sample.manifold = .ok _ := rfl
  obtain ⟨entity, root, -, written, condition⟩ := Planning.filter_written planned
  cases root
  refine ⟨_, planned, fun none => ?_, (written _).2 rfl⟩
  cases condition.1 none

namespace Sample

/-- The books called `x`. -/
def called (title : String) : Document.Value :=
  .object [("title", .object [("EQ", .string title)])]

theorem written_called (title : String) :
    Criteria.Written schema books [] [] (.criteria (.ofValue (called title)))
      [⟨["title"], "EQ", .constant (.string title)⟩] := by
  have scalar : schema.ScalarAt books ["title"] := ⟨[], "title", books, _, rfl, rfl, rfl, rfl⟩
  have operators := @Criteria.Written.operators schema books [] [] "title"
    (.object [("EQ", .constant (.string title))]) [("EQ", .constant (.string title))]
    rfl scalar rfl
  have entries := operators.cons (@Criteria.Written.nil schema books [] [])
  exact .criteria rfl entries

/-- Books by their title, in two arguments of one name. -/
def twice : Document.Field :=
  .mk none "books" [("where", called "x"), ("where", called "z")]
    [.mk none "select" [] [leaf "id"]]

end Sample

/-- Of two `where` arguments, the second one restricts nothing. -/
theorem Sample.not_written :
    ∃ plan, Planning.planRootField Sample.schema [] Sample.twice = .ok plan ∧
      plan.filter.elim [] Filter.leaves = [⟨["title"], "EQ", .constant (.string "x")⟩] ∧
      Criteria.WrittenArguments Sample.schema Sample.books [] Sample.twice.arguments
        [⟨["title"], "EQ", .constant (.string "x")⟩,
          ⟨["title"], "EQ", .constant (.string "z")⟩] := by
  refine ⟨_, rfl, rfl, ?_⟩
  have some : ∀ title, Sample.called title ≠ .null := fun _ h => nomatch h
  exact .value (some "x") (Sample.written_called "x")
    (.value (some "z") (Sample.written_called "z") .nil)

end EntityQuery
