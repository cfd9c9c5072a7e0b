/-
EntityQuery/Proofs/Advertised.lean

The operators that a schema lists for a field, and those that the field takes.

The criteria of an entity give each field of scalars an input type, and that
type lists operators (`QuerySchema.Lists`).  Fields share it if their scalars
have one name, and it lists what the first of them supports
(`QuerySchema.lists_iff`).  Compiling a filter asks the scalar of the field
itself: a leaf on the field is rejected for its operator exactly if this scalar
does not support it (`Predicate.unsupported_iff`).

So what is listed is what is taken exactly if scalars of one name support the
same (`QuerySchema.sdl_advertises`).  Nothing asks for that: two value classes
may be bound to scalars of one name, one with a test for equal documents and one
without (`Sample.not_advertised`).
-/
import EntityQuery.Proofs.Named
import EntityQuery.Proofs.Refusal

namespace EntityQuery

/-! ### Operators that are taken -/

theorem FilterOperator.ofToken?_eq_some {word : String} {op : FilterOperator} :
    ofToken? word = some op ↔ op.token = word := by
  constructor
  · intro found
    simpa using List.find?_some found
  · rintro rfl
    exact ofToken?_token op

theorem FilterOperator.token_injective : Function.Injective FilterOperator.token :=
  fun _ _ same => Option.some.inj
    ((ofToken?_token _).symm.trans ((congrArg ofToken? same).trans (ofToken?_token _)))

namespace Predicate

open Planner

variable {schema : QuerySchema} {root last : EntityType} {vars : Variables} {field : SchemaField}
variable {b : ScalarBinding} {between : List String} {name operator : String} {operand : Operand}
variable {d : Draft}

/-- The leaf is rejected since its field does not support its operator. -/
def Unsupported (schema : QuerySchema) (root : EntityType) (vars : Variables) (leaf : FilterLeaf)
    (d : Draft) : Prop :=
  ∃ field operator scalar, ((compileLeaf schema root vars leaf).run d).1 =
    .error (.unsupportedOperator field operator scalar)

/-- On a field of scalars, the operators that are rejected are those that its
scalar does not support, whatever the operand is. -/
theorem unsupported_iff (found : last.field? name = some field) (scalar : field.binding = some b)
    (reached : schema.entityAt root between = some last) :
    Unsupported schema root vars ⟨between ++ [name], operator, operand⟩ d ↔
      operator ∉ b.operators.map (·.token) := by
  obtain ⟨context, fails⟩ : ∃ context,
      fault (compileLeaf schema root vars ⟨between ++ [name], operator, operand⟩) d =
        operatorFault vars context b operator operand :=
    fault_compileLeaf_reached found scalar reached d
  have rejected : Unsupported schema root vars ⟨between ++ [name], operator, operand⟩ d ↔
      ∃ field word scalar, operatorFault vars context b operator operand =
        some (.unsupportedOperator field word scalar) := by
    rw [← fails]
    exact exists_congr fun _ => exists_congr fun _ => exists_congr fun _ =>
      Outcome.fault_eq_some.symm
  rw [rejected, operatorFault]
  cases known : (FilterOperator.ofToken? operator).filter b.supports with
  | none =>
    refine iff_of_true ⟨_, _, _, rfl⟩ fun listed => ?_
    obtain ⟨op, supported, word⟩ := List.mem_map.1 listed
    rw [FilterOperator.ofToken?_eq_some.2 word, Option.filter_some,
      if_pos (ScalarBinding.mem_operators.1 supported)] at known
    cases known
  | some op =>
    obtain ⟨word, supported⟩ := Option.filter_eq_some_iff.1 known
    refine iff_of_false ?_ fun unlisted => unlisted ?_
    · -- A supported operator fails by its operand, and not for itself.
      rintro ⟨field, word, scalar, fails⟩
      exact ofValue_operandFault fails
    · exact List.mem_map.2 ⟨op, ScalarBinding.mem_operators.2 supported,
        FilterOperator.ofToken?_eq_some.1 word⟩

end Predicate

/-! ### Operators that are listed -/

/-- The name of the scalar that the field is bound to. -/
def SchemaField.scalarName? (f : SchemaField) : Option String := f.binding.map (·.name)

namespace QuerySchema

variable {all : List EntityDescriptor} {registry : ScalarRegistry} {name : String}
variable {s : QuerySchema} {e : EntityType} {f first : SchemaField} {words : List String}

/-- The criteria of the entity give the field an input type that lists these
operators. -/
def Lists (s : QuerySchema) (e : EntityType) (f : SchemaField) (words : List String) : Prop :=
  ∃ entries member typeName operators,
    .input e.criteriaName (combinators e.criteriaName ++ entries) ∈ s.definitions ∧
      member ∈ entries ∧ member.name = f.name ∧ member.type = .named typeName ∧
      .input typeName operators ∈ s.definitions ∧ words = operators.map (·.name)

/-- The operators that are listed for the field are those with which no leaf on
it, wherever it is reached from, is rejected as unsupported. -/
def Advertises (s : QuerySchema) (e : EntityType) (f : SchemaField) : Prop :=
  ∃ words, s.Lists e f words ∧
    ∀ root between, s.entityAt root between = some e → ∀ vars operator operand d,
      operator ∈ words ↔
        ¬ Predicate.Unsupported s root vars ⟨between ++ [f.name], operator, operand⟩ d

/-- The first field in the schema whose scalar has the name of the scalar of
`f`. -/
def firstLike? (s : QuerySchema) (f : SchemaField) : Option SchemaField :=
  s.scalarFields.find? (·.scalarName? = f.scalarName?)

/-- Fields of scalars of one name have the same operators. -/
def OperatorsByScalar (s : QuerySchema) : Prop :=
  ∀ f ∈ s.scalarFields, ∀ g ∈ s.scalarFields, f.scalarName? = g.scalarName? →
    f.operators = g.operators

instance (s : QuerySchema) : Decidable s.OperatorsByScalar :=
  inferInstanceAs (Decidable (∀ f ∈ s.scalarFields, ∀ g ∈ s.scalarFields,
    f.scalarName? = g.scalarName? → f.operators = g.operators))

theorem mem_definitions_input {criteria : String} {members : List TypeMember} :
    .input criteria members ∈ s.definitions ↔
      (∃ e ∈ s.entities, e.criteriaName = criteria ∧
        combinators e.criteriaName ++ e.fields.map criteriaMember = members) ∨
      ∃ c ∈ s.scalarCriteria, c.typeName = criteria ∧
        c.operators.map (operatorMember c.scalar) = members := by
  simp only [definitions, List.mem_append, List.mem_map, List.mem_flatMap, List.mem_singleton]
  constructor
  -- Scalars, object types and the directions are no input types.
  · rintro ((((⟨_, -, h⟩ | h) | ⟨e, he, h⟩) | ⟨c, hc, h⟩) | h)
    · cases h
    · cases h
    · simp only [entityDefinitions, List.mem_cons, List.not_mem_nil, or_false] at h
      rcases h with h | h | h
      · cases h
      · cases h
      · cases h
        exact .inl ⟨e, he, rfl, rfl⟩
    · cases h
      exact .inr ⟨c, hc, rfl, rfl⟩
    · cases h
  · rintro (⟨e, he, rfl, rfl⟩ | ⟨c, hc, rfl, rfl⟩)
    · exact .inl (.inl (.inr ⟨e, he, by simp [entityDefinitions]⟩))
    · exact .inl (.inr ⟨c, hc, rfl⟩)

section Built

variable (h : build name all registry = .ok s)

include h

/-- The criteria of an entity are defined once. -/
theorem entries_of_mem_definitions (he : e ∈ s.entities) {members : List TypeMember}
    (defined : .input e.criteriaName members ∈ s.definitions) :
    members = combinators e.criteriaName ++ e.fields.map criteriaMember := by
  rcases mem_definitions_input.1 defined with ⟨e', he', same, rfl⟩ | ⟨c, hc, same, -⟩
  · rw [criteriaName_of_build h e he, criteriaName_of_build h e' he'] at same
    have names := nodup_rootNames h
    rw [rootNames] at names
    rw [List.inj_on_of_nodup_map names he' he (criteriaTypeName_injective same)]
  · have last := lastLetter_of_mem_criteria h (List.mem_map_of_mem hc)
    rw [same, lastLetter_of_mem_expressions h (List.mem_map_of_mem he)] at last
    cases last

/-- The criteria of a scalar are defined once. -/
theorem operators_of_mem_definitions {c : ScalarCriteria} (hc : c ∈ s.scalarCriteria)
    {members : List TypeMember} (defined : .input c.typeName members ∈ s.definitions) :
    members.map (·.name) = c.operators.map (·.token) := by
  rcases mem_definitions_input.1 defined with ⟨e, he, same, -⟩ | ⟨c', hc', same, rfl⟩
  · have last := lastLetter_of_mem_criteria h (List.mem_map_of_mem hc)
    rw [← same, lastLetter_of_mem_expressions h (List.mem_map_of_mem he)] at last
    cases last
  · obtain rfl := List.inj_on_of_nodup_map (nodup_scalarCriteria s) hc' hc same
    rw [List.map_map]
    rfl

/-- There is a first field with a scalar of the same name, and its operators are
in the criteria of the scalar. -/
theorem exists_first (he : e ∈ s.entities) {d : FieldDescriptor} {b : ScalarBinding}
    (hf : scalarField d b ∈ e.scalarFields) :
    ∃ d₁ b₁, s.firstLike? (scalarField d b) = some (scalarField d₁ b₁) ∧
      ⟨scalarCriteriaName b.name, b.name, b₁.operators⟩ ∈ s.scalarCriteria := by
  have among : scalarField d b ∈ s.scalarFields := List.mem_flatMap.2 ⟨e, he, hf⟩
  obtain ⟨first, found⟩ := Option.isSome_iff_exists.1
    (List.find?_isSome (p := fun g => g.scalarName? = (scalarField d b).scalarName?).2
      ⟨_, among, decide_eq_true rfl⟩)
  have scalar : ∀ g ∈ s.scalarFields, ∃ d b, g = scalarField d b := by
    intro g hg
    obtain ⟨e', he', hg⟩ := List.mem_flatMap.1 hg
    exact (exists_scalarField_of_build h he' hg).2
  obtain ⟨d₁, b₁, rfl⟩ := scalar first (List.mem_of_find?_eq_some found)
  obtain ⟨same, before, after, split, earlier⟩ := List.find?_eq_some_iff_append.1 found
  have same : b₁.name = b.name := by simpa [SchemaField.scalarName?, scalarField] using same
  refine ⟨d₁, b₁, found, mem_scalarCriteria.2 ?_⟩
  -- The criteria that fields before the first one bring along have other names.
  have others : (before.filterMap scalarCriteria?).find?
      (·.typeName = scalarCriteriaName b.name) = none := by
    refine List.find?_eq_none.2 fun c hc named => ?_
    obtain ⟨g, hg, brings⟩ := List.mem_filterMap.1 hc
    obtain ⟨d', b', rfl⟩ := scalar g (split ▸ List.mem_append_left _ hg)
    cases brings
    have equal : b'.name = b.name := scalarCriteriaName_injective (of_decide_eq_true named)
    have differs := earlier _ hg
    simp [SchemaField.scalarName?, scalarField, equal] at differs
  rw [broughtCriteria, split, List.filterMap_append,
    List.filterMap_cons_some (scalarCriteria?_scalarField d₁ b₁), List.find?_append, others,
    Option.none_or, same]
  exact List.find?_cons_of_pos (decide_eq_true rfl)

/-- What is listed for a field are the operators of the first field with a scalar
of the same name. -/
theorem lists_iff (he : e ∈ s.entities) (hf : f ∈ e.scalarFields) :
    ∃ d₁ b₁, s.firstLike? f = some (scalarField d₁ b₁) ∧
      ∀ words, s.Lists e f words ↔ words = b₁.operators.map (·.token) := by
  obtain ⟨isField, d, b, rfl⟩ := exists_scalarField_of_build h he hf
  obtain ⟨d₁, b₁, first, hc⟩ := exists_first h he hf
  refine ⟨d₁, b₁, first, fun words => ?_⟩
  constructor
  -- The criteria of the entity fix the line of the field, and it fixes the input type.
  · rintro ⟨entries, member, typeName, operators, criteria, among, named, type, listed, rfl⟩
    rw [List.append_cancel_left (entries_of_mem_definitions h he criteria)] at among
    obtain ⟨g, hg, rfl⟩ := List.mem_map.1 among
    have same : g.name = (scalarField d b).name := named
    have found := field?_of_build h he hg
    rw [same, field?_of_build h he isField] at found
    cases found
    cases type
    exact operators_of_mem_definitions h hc listed
  · rintro rfl
    refine ⟨_, criteriaMember (scalarField d b), scalarCriteriaName b.name, _,
      mem_definitions_input.2 (.inl ⟨e, he, rfl, rfl⟩), List.mem_map_of_mem isField, rfl, rfl,
      mem_definitions_input.2 (.inr ⟨_, hc, rfl, rfl⟩), ?_⟩
    rw [List.map_map]
    rfl

/-- A field advertises its operators exactly if they are those of the first field
with a scalar of the same name. -/
theorem advertises_iff (he : e ∈ s.entities) (hf : f ∈ e.scalarFields)
    (isFirst : s.firstLike? f = some first) :
    s.Advertises e f ↔ first.operators = f.operators := by
  obtain ⟨d₁, b₁, found, listed⟩ := lists_iff h he hf
  obtain rfl := Option.some.inj (found.symm.trans isFirst)
  obtain ⟨isField, d, b, rfl⟩ := exists_scalarField_of_build h he hf
  show _ ↔ b₁.operators = b.operators
  have taken : ∀ root between, s.entityAt root between = some e → ∀ vars operator operand d',
      ¬ Predicate.Unsupported s root vars
          ⟨between ++ [(scalarField d b).name], operator, operand⟩ d' ↔
        operator ∈ b.operators.map (·.token) := by
    intro root between reached vars operator operand d'
    rw [Predicate.unsupported_iff (field?_of_build h he isField) rfl reached, not_not]
  constructor
  · rintro ⟨words, lists, agree⟩
    obtain rfl := (listed words).1 lists
    -- The entity is reached from itself, over no associations.
    have same : ∀ op, b₁.supports op = b.supports op := by
      intro op
      have both := (agree e [] rfl [] op.token (.constant .null) Draft.empty).trans
        (taken e [] rfl [] op.token (.constant .null) Draft.empty)
      rw [List.mem_map_of_injective FilterOperator.token_injective,
        List.mem_map_of_injective FilterOperator.token_injective, ScalarBinding.mem_operators,
        ScalarBinding.mem_operators] at both
      exact Bool.eq_iff_iff.2 both
    rw [ScalarBinding.operators, ScalarBinding.operators, funext same]
  · intro same
    refine ⟨_, (listed _).2 rfl, fun root between reached vars operator operand d' => ?_⟩
    rw [taken root between reached, same]

end Built

/-- **The operators that are listed are those that are taken exactly if scalars of
one name support the same.**  The text of the schema, which is that of its
definitions, gives one list of operators for each field of scalars: that of the
first field in the schema whose scalar has the same name.  The list has the
operators with which leaves on the field are not rejected exactly if the two
fields have the same operators. -/
theorem sdl_advertises {name : String} {all : List EntityDescriptor} {registry : ScalarRegistry}
    {s : QuerySchema} (built : build name all registry = .ok s) :
    s.sdl = String.join (s.definitions.map (·.text)) ∧
    (∀ e ∈ s.entities, ∀ f ∈ e.scalarFields, ∃ first, s.firstLike? f = some first ∧
      (∀ words, s.Lists e f words ↔ words = first.operators.map (·.token)) ∧
      (s.Advertises e f ↔ first.operators = f.operators)) ∧
    ((∀ e ∈ s.entities, ∀ f ∈ e.scalarFields, s.Advertises e f) ↔ s.OperatorsByScalar) := by
  have each : ∀ e ∈ s.entities, ∀ f ∈ e.scalarFields, ∃ first, s.firstLike? f = some first ∧
      (∀ words, s.Lists e f words ↔ words = first.operators.map (·.token)) ∧
      (s.Advertises e f ↔ first.operators = f.operators) := by
    intro e he f hf
    obtain ⟨d, b, first, listed⟩ := lists_iff built he hf
    exact ⟨_, first, listed, advertises_iff built he hf first⟩
  refine ⟨sdl_eq_text s, each, ?_⟩
  constructor
  · intro agree f hf g hg same
    obtain ⟨e, he, hf⟩ := List.mem_flatMap.1 hf
    obtain ⟨e', he', hg⟩ := List.mem_flatMap.1 hg
    obtain ⟨first, found, -, advertised⟩ := each e he f hf
    -- Fields of one scalar name share the first field of that name.
    have found' : s.firstLike? g = some first := by
      rw [firstLike?, ← same]
      exact found
    rw [← advertised.1 (agree e he f hf)]
    exact (advertises_iff built he' hg found').1 (agree e' he' g hg)
  · intro same e he f hf
    obtain ⟨first, found, -, advertised⟩ := each e he f hf
    rw [firstLike?] at found
    have scalar : first.scalarName? = f.scalarName? := by simpa using List.find?_some found
    exact advertised.2 (same first (List.mem_of_find?_eq_some found) f
      (List.mem_flatMap.2 ⟨e, he, hf⟩) scalar)

end QuerySchema

namespace Sample

/-- Notes of two classes, one with a test for equal documents. -/
def noteClasses : ScalarRegistry :=
  let note := ScalarBinding.document "Note" "A note"
  (ScalarRegistry.empty.register "Rich" note.withContainment).register "Plain" note

/-- A rich note at the top of a memo. -/
def heading : SchemaField :=
  QuerySchema.scalarField ⟨"heading", "heading", .scalar "Rich"⟩
    (ScalarBinding.document "Note" "A note").withContainment

/-- A plain note beside it. -/
def margin : SchemaField :=
  QuerySchema.scalarField ⟨"margin", "margin", .scalar "Plain"⟩ (.document "Note" "A note")

/-- Memos with notes of both classes. -/
def memo : EntityDescriptor :=
  ⟨"Memo", some "memos", none, "memos", some "id",
    [id.descriptor, heading.descriptor, margin.descriptor]⟩

/-- Memos in the schema. -/
def memos : EntityType :=
  ⟨memo, "memos", criteriaTypeName "memos", [id, heading, margin], id⟩

/-- The schema of the memos. -/
def desk : QuerySchema := ⟨"desk", [memos], noteClasses⟩

theorem desk_built : QuerySchema.build "desk" [memo] noteClasses = .ok desk := rfl

end Sample

/-- In the library, fields of one scalar are bound to the same one, so all operators
are listed as they are taken; attributes are documents without a test for equal
ones. -/
theorem sdl_advertises_library :
    (∀ e ∈ Sample.schema.entities, ∀ f ∈ e.scalarFields, Sample.schema.Advertises e f) ∧
      Sample.schema.Lists Sample.books Sample.attributes
        ["EQ", "NE", "IS_NULL", "NOT_NULL", "LOCATE"] := by
  obtain ⟨-, each, agree⟩ := QuerySchema.sdl_advertises Sample.schema_built
  refine ⟨agree.2 (by decide), ?_⟩
  have hb : Sample.books ∈ Sample.schema.entities := List.mem_cons_of_mem _ List.mem_cons_self
  have hf : Sample.attributes ∈ Sample.books.scalarFields :=
    List.mem_cons_of_mem _ (List.mem_cons_of_mem _ List.mem_cons_self)
  obtain ⟨first, found, listed, -⟩ := each Sample.books hb Sample.attributes hf
  obtain rfl : Sample.attributes = first := Option.some.inj found
  exact (listed _).2 rfl

/-- The two classes of notes are scalars of one name, and share the operators that
are listed.  So the test for equal documents is listed for the margin, and rejected
there. -/
theorem Sample.not_advertised :
    ∃ words, desk.Lists memos margin words ∧ "CONTAINS" ∈ words ∧
      ((Predicate.compileLeaf desk memos [] ⟨["margin"], "CONTAINS", .constant (.string "x")⟩).run
          Draft.empty).1 = .error (.unsupportedOperator "margin" "CONTAINS" "Note") := by
  obtain ⟨d, b, found, listed⟩ := QuerySchema.lists_iff desk_built List.mem_cons_self
    (f := margin) (List.mem_cons_of_mem _ (List.mem_cons_of_mem _ List.mem_cons_self))
  have first : heading = QuerySchema.scalarField d b := Option.some.inj found
  refine ⟨_, (listed _).2 rfl, ?_, rfl⟩
  show "CONTAINS" ∈ (QuerySchema.scalarField d b).operators.map (·.token)
  rw [← first]
  decide

end EntityQuery
