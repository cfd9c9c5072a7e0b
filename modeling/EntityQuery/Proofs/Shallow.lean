/-
EntityQuery/Proofs/Shallow.lean

What is read under a limit on nesting.

The parsers of documents with another limit than `maxNesting` for values, types
and selection sets (`operationWithin`, `parseWithin`); at `maxNesting` they are
the parsers of documents (`operationWithin_maxNesting`).

An operation that is read under a limit keeps to it: the values of arguments and
the defaults of variables nest lists and objects, the types of variables nest
lists, and selection sets nest each other up to the limit (`Operation.Shallow`,
`yields_operation`).  Each container takes one from the room that is left, and a
field begins anew for its arguments.
-/
import EntityQuery.Proofs.Numerals
import EntityQuery.Proofs.Printing
import EntityQuery.Proofs.Reading

namespace EntityQuery.Document

/-! ### Parsers under a limit -/

/-- An argument whose value nests up to a limit. -/
def argumentWithin (limit : Nat) : Parser (String × Value) :=
  Parser.pair (token name) <|
    Parser.andThen
      (Parser.expecting "Expected ':' after argument name" (Parser.commit (punct ':')))
      (Parser.expecting "Expected argument value" (Parser.commit (valueWithin limit)))

/-- Arguments whose values nest up to a limit. -/
def argumentsWithin (limit : Nat) : Parser (List (String × Value)) :=
  group (argumentWithin limit) "Expected ')' to close arguments"

/-- A field whose argument values nest up to a limit. -/
def fieldWithin (limit : Nat) (selection : Parser (List Field)) : Parser Field := fun input =>
  (token name input).bind fun first rest =>
  (Parser.optional aliased rest).bind fun second rest =>
  (Parser.optional (argumentsWithin limit) rest).bind fun args rest =>
  (Parser.optional selection rest).bind fun fields rest =>
    let (label, fieldName) := match second with
      | some other => (some first, other)
      | none => (none, first)
    .ok (.mk label fieldName (args.getD []) (fields.getD [])) rest

/-- A selection set that may nest `room` levels, with argument values that nest up
to a limit. -/
def fieldsWithin (limit : Nat) : Nat → Parser (List Field)
  | 0 => opened '\x7b' none
  | room + 1 => opened '\x7b' (some (selectionBody (fieldWithin limit (fieldsWithin limit room))))

/-- A default that nests up to a limit. -/
def defaultWithin (limit : Nat) : Parser Value :=
  Parser.andThen (punct '=')
    (Parser.expecting "Expected default value" (Parser.commit (valueWithin limit)))

/-- A variable definition whose type and default nest up to a limit. -/
def definitionWithin (limit : Nat) : Parser VariableDefinition := fun input =>
  (token variableName input).bind fun named rest =>
  (Parser.expecting "Expected ':' after variable name" (Parser.commit (punct ':')) rest).bind
    fun _ rest =>
  (Parser.expecting "Expected variable type" (Parser.commit (typeWithin limit)) rest).bind
    fun type rest =>
  (Parser.optional (defaultWithin limit) rest).map fun default => ⟨named, type, default⟩

/-- Variable definitions whose types and defaults nest up to a limit. -/
def definitionsWithin (limit : Nat) : Parser (List VariableDefinition) :=
  group (definitionWithin limit) "Expected ')' after variable definitions"

/-- The head of an operation under a limit. -/
def headWithin (limit : Nat) : Parser (Option String × List VariableDefinition) := fun input =>
  match keyword "query" input with
  | .ok _ rest =>
    (Parser.optional (token name) rest).bind fun operationName rest =>
    (Parser.optional (definitionsWithin limit) rest).map fun definitions =>
      (operationName, definitions.getD [])
  | .soft _ => .ok (none, []) input
  | .hard trail => .hard trail

/-- An operation under a limit. -/
def operationWithin (limit : Nat) : Parser Operation := fun input =>
  if beginsWithKeyword "mutation" input || beginsWithKeyword "subscription" input then
    .hard [⟨input, "Only query operations are supported"⟩]
  else
    (headWithin limit input).bind fun head rest =>
    (Parser.expecting "Expected selection set" (Parser.commit (fieldsWithin limit limit)) rest).map
      fun selection => ⟨head.1, head.2, selection⟩

/-- The operation that a document consists of, under a limit. -/
def parseWithin (limit : Nat) (document : String) : Except Trail Operation :=
  match operationWithin limit document.toList with
  | .ok op rest =>
    if (Text.trim rest).isEmpty then .ok op
    else .error [⟨rest, "Unexpected tokens after query"⟩, ⟨Text.trim rest, "Unparsed input"⟩]
  | .soft trail => .error trail
  | .hard trail => .error trail

theorem fieldsWithin_maxNesting (room : Nat) :
    fieldsWithin maxNesting room = selectionWithin room := by
  induction room with
  | zero => rfl
  | succ room ih =>
    rw [fieldsWithin, ih]
    rfl

/-- Documents are parsed under the limit `maxNesting`. -/
theorem operationWithin_maxNesting : operationWithin maxNesting = operation := by
  funext input
  rw [operationWithin, fieldsWithin_maxNesting]
  rfl

/-- The parser is the one whose limit is the nesting that it admits. -/
theorem parseWithin_maxNesting : parseWithin maxNesting = parse := by
  funext document
  rw [parseWithin, operationWithin_maxNesting]
  rfl

/-! ### Depth -/

namespace Value

mutual

/-- The greatest number of lists and objects inside each other. -/
def depth : Value → Nat
  | .list items => depthOf items + 1
  | .object entries => depthOfEntries entries + 1
  | _ => 0

/-- The greatest depth of values. -/
def depthOf : List Value → Nat
  | [] => 0
  | v :: vs => max (depth v) (depthOf vs)

/-- The greatest depth of the values of entries. -/
def depthOfEntries : List (String × Value) → Nat
  | [] => 0
  | (_, v) :: es => max (depth v) (depthOfEntries es)

end

theorem depthOf_le {vs : List Value} {n : Nat} : depthOf vs ≤ n ↔ ∀ v ∈ vs, v.depth ≤ n := by
  induction vs with
  | nil => simp [depthOf]
  | cons v vs ih => rw [depthOf, Nat.max_le, ih, List.forall_mem_cons]

theorem depthOfEntries_le {es : List (String × Value)} {n : Nat} :
    depthOfEntries es ≤ n ↔ ∀ e ∈ es, e.2.depth ≤ n := by
  induction es with
  | nil => simp [depthOfEntries]
  | cons e es ih => rw [depthOfEntries, Nat.max_le, ih, List.forall_mem_cons]

end Value

namespace TypeRef

/-- The number of lists inside each other. -/
def depth : TypeRef → Nat
  | .named _ => 0
  | .list item => item.depth + 1
  | .nonNull inner => inner.depth

/-- The number of lists and non-null marks on the way to the name. -/
def levels : TypeRef → Nat
  | .named _ => 0
  | .list item => item.levels + 1
  | .nonNull inner => inner.levels + 1

end TypeRef

namespace Field

mutual

/-- The greatest number of selection sets inside each other below a field. -/
def depth : Field → Nat
  | .mk _ _ _ selection => depthOf selection

/-- The greatest number of selection sets inside each other, the one of the fields
themselves included. -/
def depthOf : List Field → Nat
  | [] => 0
  | f :: fs => max (f.depth + 1) (depthOf fs)

end

theorem depthOf_le {fs : List Field} {n : Nat} : depthOf fs ≤ n ↔ ∀ f ∈ fs, f.depth < n := by
  induction fs with
  | nil => simp [depthOf]
  | cons f fs ih => rw [depthOf, Nat.max_le, ih, List.forall_mem_cons, Nat.add_one_le_iff]

/-- The argument values nest up to a limit. -/
def ArgumentsShallow (limit : Nat) (f : Field) : Prop := ∀ a ∈ f.arguments, a.2.depth ≤ limit

/-- Argument values nest up to a limit, and selection sets up to the room below. -/
def Shallow (limit room : Nat) (f : Field) : Prop :=
  f.Throughout (ArgumentsShallow limit) ∧ f.depth ≤ room

/-- The same of fields in a selection set, which takes one from the room. -/
def AllShallow (limit room : Nat) (fs : List Field) : Prop :=
  AllThroughout (ArgumentsShallow limit) fs ∧ depthOf fs ≤ room

theorem allShallow_succ {limit room : Nat} {fs : List Field} :
    AllShallow limit (room + 1) fs ↔ ∀ f ∈ fs, f.Shallow limit room := by
  simp only [AllShallow, Shallow, allThroughout_iff, depthOf_le, Nat.lt_succ_iff, ← forall₂_and]

end Field

/-- The type and the default nest up to a limit. -/
structure VariableDefinition.Shallow (limit : Nat) (d : VariableDefinition) : Prop where
  default : ∀ v, d.default = some v → v.depth ≤ limit
  type : d.type.depth ≤ limit
  levels : d.type.levels ≤ 2 * limit + 1

/-- Values, types and selection sets nest up to a limit. -/
structure Operation.Shallow (limit : Nat) (op : Operation) : Prop where
  definitions : ∀ d ∈ op.definitions, d.Shallow limit
  selection : Field.AllShallow limit limit op.selection

/-! ### More of what a parser yields -/

namespace Parser

variable {α β : Type} {p : Parser α} {q : Parser β} {good : α → Prop} {better : β → Prop}

theorem Yields.mono {good' : α → Prop} (hp : p.Yields good) (h : ∀ a, good a → good' a) :
    p.Yields good' := fun input value rest read => h value (hp input value rest read)

theorem Yields.pair_right (hq : q.Yields better) : (pair p q).Yields fun ab => better ab.2 := by
  intro input ab rest h
  obtain ⟨a, left, -, h⟩ := Reply.bind_eq_ok.1 h
  obtain ⟨b, second, rfl⟩ := Reply.map_eq_ok.1 h
  exact hq left b rest second

theorem Yields.choice {ps : List (Parser α)} (h : ∀ p ∈ ps, p.Yields good) :
    (choice ps).Yields good := by
  have from_any : ∀ last, (choiceFrom last ps).Yields good := by
    induction ps with
    | nil =>
      intro last input value rest read
      cases read
    | cons p ps ih =>
      obtain ⟨here, later⟩ := List.forall_mem_cons.1 h
      intro last input value rest read
      simp only [choiceFrom] at read
      split at read
      · exact ih later _ input value rest read
      · exact here input value rest read
  exact from_any []

theorem Yields.many (hp : p.Yields good) : p.many.Yields fun found => ∀ a ∈ found, good a :=
  fun input => hp.manyWithin (input.length + 1) input

theorem Yields.group {reason : String} (hp : p.Yields good) :
    (group p reason).Yields fun found => ∀ a ∈ found, good a :=
  (hp.many1.pair_left.map fun _ h => h).andThen

end Parser

/-! ### Values and types under a limit -/

/-- Nothing need be known about what is read. -/
theorem yields_anything {α : Type} (p : Parser α) : p.Yields fun _ => True :=
  fun _ _ _ _ => trivial

/-- A number holds no value. -/
theorem yields_number : Parser.Yields number (·.depth = 0) := by
  intro input v rest h
  cases readsNumber input with
  | none left read => cases read.symm.trans h
  | int longest spells range read =>
    cases read.symm.trans h
    rfl
  | large longest spells range read => cases read.symm.trans h
  | float longest spells read =>
    cases read.symm.trans h
    rfl

theorem depth_wordValue (word : String) : (wordValue word).depth = 0 := by
  rw [wordValue]
  split_ifs <;> rfl

/-- A value is at most one level deeper than those in its containers. -/
theorem yields_valueOver {item : Option (Parser Value)} {limit : Nat}
    (h : ∀ p, item = some p → ∃ room, limit = room + 1 ∧ p.Yields (·.depth ≤ room)) :
    (valueOver item).Yields (·.depth ≤ limit) := by
  refine (Parser.Yields.choice ?_).token
  -- One alternative after the other; only lists and objects make a value deeper.
  simp only [List.forall_mem_cons]
  refine ⟨?_, ?_, ?_, ?_, ?_, ?_, fun p hp => absurd hp List.not_mem_nil⟩
  · exact (yields_anything variableName).map fun _ _ => Nat.zero_le limit
  · exact (yields_anything string).map fun _ _ => Nat.zero_le limit
  · exact yields_number.mono fun v flat => flat.le.trans (Nat.zero_le limit)
  · refine Parser.Yields.opened fun body e => ?_
    obtain ⟨p, hp, rfl⟩ := Option.map_eq_some_iff.1 e
    obtain ⟨room, rfl, shallow⟩ := h p hp
    refine (shallow.many.pair_left.map fun items le => ?_).expecting.commit
    exact Nat.succ_le_succ (Value.depthOf_le.2 le)
  · refine Parser.Yields.opened fun body e => ?_
    obtain ⟨p, hp, rfl⟩ := Option.map_eq_some_iff.1 e
    obtain ⟨room, rfl, shallow⟩ := h p hp
    have one : (entry p).Yields fun e => e.2.depth ≤ room :=
      shallow.commit.expecting.andThen.pair_right
    refine one.many.pair_left.map fun entries le => ?_
    exact Nat.succ_le_succ (Value.depthOfEntries_le.2 le)
  · refine (yields_anything name).map fun word _ => ?_
    exact (depth_wordValue word).le.trans (Nat.zero_le limit)

theorem yields_value (limit : Nat) : (valueWithin limit).Yields (·.depth ≤ limit) := by
  induction limit with
  | zero => exact yields_valueOver nofun
  | succ limit ih =>
    refine yields_valueOver fun p e => ?_
    cases e
    exact ⟨limit, rfl, ih⟩

/-- Brackets make a type one level deeper than its items, and a mark adds a
level but no depth. -/
theorem yields_typeOver {item : Option (Parser TypeRef)} {limit : Nat}
    (h : ∀ p, item = some p → p.Yields fun t => t.depth < limit ∧ t.levels < 2 * limit) :
    (typeOver item).Yields fun t => t.depth ≤ limit ∧ t.levels ≤ 2 * limit + 1 := by
  have base : (Parser.choice [opened '[' (item.map listTypeBody),
      Parser.map TypeRef.named (token name)]).Yields
      fun t => t.depth ≤ limit ∧ t.levels ≤ 2 * limit := by
    refine Parser.Yields.choice ?_
    simp only [List.forall_mem_cons]
    refine ⟨?_, ?_, fun p hp => absurd hp List.not_mem_nil⟩
    · refine Parser.Yields.opened fun body e => ?_
      obtain ⟨p, hp, rfl⟩ := Option.map_eq_some_iff.1 e
      exact (h p hp).pair_left.map fun types less => less
    · exact (yields_anything (token name)).map fun _ _ => ⟨Nat.zero_le _, Nat.zero_le _⟩
  intro input t rest read
  obtain ⟨inner, left, first, read⟩ := Reply.bind_eq_ok.1 read
  obtain ⟨mark, -, rfl⟩ := Reply.map_eq_ok.1 read
  obtain ⟨depth, levels⟩ := base input inner left first
  -- One mark may be added, and it holds no list.
  split
  · exact ⟨depth, Nat.succ_le_succ levels⟩
  · exact ⟨depth, Nat.le_succ_of_le levels⟩

theorem yields_type (limit : Nat) :
    (typeWithin limit).Yields fun t => t.depth ≤ limit ∧ t.levels ≤ 2 * limit + 1 := by
  induction limit with
  | zero => exact yields_typeOver nofun
  | succ limit ih =>
    refine yields_typeOver fun p e => ?_
    cases e
    refine ih.mono fun t shallow => ⟨Nat.lt_succ_of_le shallow.1, ?_⟩
    have levels := shallow.2
    omega

/-! ### Operations under a limit -/

theorem yields_field {limit room : Nat} {selection : Parser (List Field)}
    (h : selection.Yields (Field.AllShallow limit room)) :
    (fieldWithin limit selection).Yields (Field.Shallow limit room) := by
  intro input f rest read
  simp only [fieldWithin] at read
  obtain ⟨first, left₁, -, read⟩ := Reply.bind_eq_ok.1 read
  obtain ⟨second, left₂, -, read⟩ := Reply.bind_eq_ok.1 read
  obtain ⟨args, left₃, read₃, read⟩ := Reply.bind_eq_ok.1 read
  obtain ⟨fields, left₄, read₄, read⟩ := Reply.bind_eq_ok.1 read
  have one : (argumentWithin limit).Yields fun a => a.2.depth ≤ limit :=
    (yields_value limit).commit.expecting.andThen.pair_right
  -- Arguments or a selection that are not there are empty, and so are shallow.
  have args_ok : ∀ a ∈ args.getD [], a.2.depth ≤ limit := by
    cases args with
    | none => exact fun a ha => absurd ha List.not_mem_nil
    | some found => exact one.group.optional _ _ _ read₃ found rfl
  have fields_ok : Field.AllShallow limit room (fields.getD []) := by
    cases fields with
    | none => exact ⟨trivial, Nat.zero_le room⟩
    | some fs => exact h.optional _ _ _ read₄ fs rfl
  cases read
  exact ⟨⟨args_ok, fields_ok.1⟩, fields_ok.2⟩

theorem yields_fields (limit room : Nat) :
    (fieldsWithin limit room).Yields (Field.AllShallow limit room) := by
  induction room with
  | zero => exact Parser.Yields.opened nofun
  | succ room ih =>
    refine Parser.Yields.opened fun body e => ?_
    cases e
    refine ((yields_field ih).many1.expecting.pair_left.map fun fields shallow => ?_).commit
    exact Field.allShallow_succ.2 shallow

theorem yields_definition (limit : Nat) :
    (definitionWithin limit).Yields (VariableDefinition.Shallow limit) := by
  intro input d rest read
  simp only [definitionWithin] at read
  obtain ⟨named, left₁, -, read⟩ := Reply.bind_eq_ok.1 read
  obtain ⟨_, left₂, -, read⟩ := Reply.bind_eq_ok.1 read
  obtain ⟨type, left₃, read₃, read⟩ := Reply.bind_eq_ok.1 read
  obtain ⟨default, read₄, rfl⟩ := Reply.map_eq_ok.1 read
  obtain ⟨depth, levels⟩ := (yields_type limit).commit.expecting _ _ _ read₃
  have value : (defaultWithin limit).Yields (·.depth ≤ limit) :=
    (yields_value limit).commit.expecting.andThen
  exact ⟨value.optional _ _ _ read₄, depth, levels⟩

theorem yields_head (limit : Nat) :
    (headWithin limit).Yields fun head => ∀ d ∈ head.2, d.Shallow limit := by
  intro input head rest read
  simp only [headWithin] at read
  split at read
  · obtain ⟨operationName, left, -, read⟩ := Reply.bind_eq_ok.1 read
    obtain ⟨definitions, found, rfl⟩ := Reply.map_eq_ok.1 read
    cases definitions with
    | none => exact fun d hd => absurd hd List.not_mem_nil
    | some ds => exact (yields_definition limit).group.optional _ _ _ found ds rfl
  · cases read
    exact fun d hd => absurd hd List.not_mem_nil
  · cases read

/-- What is read under a limit keeps to it. -/
theorem yields_operation (limit : Nat) :
    (operationWithin limit).Yields (Operation.Shallow limit) := by
  intro input op rest read
  simp only [operationWithin] at read
  split at read
  · cases read
  · obtain ⟨head, left, first, read⟩ := Reply.bind_eq_ok.1 read
    obtain ⟨selection, second, rfl⟩ := Reply.map_eq_ok.1 read
    have definitions := yields_head limit _ _ _ first
    have fields := (yields_fields limit limit).commit.expecting _ _ _ second
    exact ⟨definitions, fields⟩

/-! ### Documents -/

theorem parseWithin_eq_ok {limit : Nat} {document : String} {op : Operation}
    (h : parseWithin limit document = .ok op) :
    ∃ rest, operationWithin limit document.toList = .ok op rest := by
  simp only [parseWithin] at h
  split at h
  · next op' rest read =>
    split at h
    · cases h
      exact ⟨rest, read⟩
    · cases h
  · cases h
  · cases h

/-- An operation that is parsed within a limit is shallow. -/
theorem shallow_parseWithin {limit : Nat} {document : String} {op : Operation}
    (h : parseWithin limit document = .ok op) : op.Shallow limit := by
  obtain ⟨rest, read⟩ := parseWithin_eq_ok h
  exact yields_operation limit _ _ _ read

end EntityQuery.Document
