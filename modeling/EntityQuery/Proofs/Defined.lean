/-
EntityQuery/Proofs/Defined.lean

The types that the text of a schema defines.

The text is written from a list of definitions (`QuerySchema.definitions`),
one after another (`QuerySchema.sdl_eq_text`).  The criteria of the scalars
among them are those that come first under their name when the fields are gone
through (`QuerySchema.mem_scalarCriteria`), and in a schema that was built they
are called after their scalar (`QuerySchema.typeName_of_mem`).
-/
import EntityQuery.Proofs.Sound
import EntityQuery.Schema.Sdl

namespace EntityQuery

/-! ### Definitions -/

/-- A type where it is used: by its name, as a list, or as a list without
nulls. -/
inductive TypeReference where
  | named (name : String)
  | list (name : String)
  | full (name : String)
deriving DecidableEq, Repr

namespace TypeReference

/-- The name in the reference. -/
def name : TypeReference → String
  | .named name => name
  | .list name => name
  | .full name => name

/-- How the reference is written. -/
def text : TypeReference → String
  | .named name => name
  | .list name => "[" ++ name ++ "]"
  | .full name => "[" ++ name ++ "!]"

end TypeReference

/-- A line of a definition: a field, with its argument if it takes one. -/
structure TypeMember where
  name : String
  argument : Option (String × TypeReference)
  type : TypeReference
deriving DecidableEq, Repr

namespace TypeMember

/-- How the line is written. -/
def text (m : TypeMember) : String :=
  let argument :=
    match m.argument with
    | some (name, type) => "(" ++ name ++ ": " ++ type.text ++ ")"
    | none => ""
  m.name ++ argument ++ ": " ++ m.type.text

/-- The types that the line speaks of. -/
def references (m : TypeMember) : List String :=
  (m.argument.map fun a => a.2.name).toList ++ [m.type.name]

@[simp] theorem mem_references {m : TypeMember} {n : String} :
    n ∈ m.references ↔ (∃ a, m.argument = some a ∧ a.2.name = n) ∨ m.type.name = n := by
  simp only [references, List.mem_append, Option.mem_toList, Option.map_eq_some_iff,
    List.mem_singleton, eq_comm (a := n)]

end TypeMember

/-- A type that the schema defines. -/
inductive TypeDefinition where
  | scalar (name : String) (description : Option String)
  | object (name : String) (fields : List TypeMember)
  | input (name : String) (fields : List TypeMember)
  | enum (name : String) (values : List String)
deriving DecidableEq, Repr

namespace TypeDefinition

/-- The name that is defined. -/
def name : TypeDefinition → String
  | .scalar name _ => name
  | .object name _ => name
  | .input name _ => name
  | .enum name _ => name

/-- The types that the definition speaks of. -/
def references : TypeDefinition → List String
  | .scalar _ _ => []
  | .object _ fields => fields.flatMap (·.references)
  | .input _ fields => fields.flatMap (·.references)
  | .enum _ _ => []

/-- How the definition is written. -/
def text : TypeDefinition → String
  | .scalar name description =>
    let above :=
      match description with
      | some d => "\"" ++ d ++ "\"\n"
      | none => ""
    above ++ "scalar " ++ name ++ "\n\n"
  | .object name fields => QuerySchema.block ("type " ++ name) (fields.map (·.text))
  | .input name fields => QuerySchema.block ("input " ++ name) (fields.map (·.text))
  | .enum name values =>
    "enum " ++ name ++ " \x7b\n" ++ String.join (values.map fun v => "  " ++ v ++ "\n") ++ "\x7d\n"

end TypeDefinition

namespace QuerySchema

/-! ### The definitions of a schema -/

/-- The declaration of a scalar, with the description of its first binding. -/
def scalarDefinition (s : QuerySchema) (name : String) : TypeDefinition :=
  .scalar name ((s.registry.bindings.find? (·.name = name)).map (·.description))

/-- The root fields, which take criteria. -/
def queryDefinition (s : QuerySchema) : TypeDefinition :=
  .object "Query" (s.entities.map fun e =>
    ⟨e.rootName, some ("where", .named e.criteriaName), .named e.rootName⟩)

/-- The type of a field in answers. -/
def outputReference : OutputType → TypeReference
  | .scalar name => .named name
  | .object entity => .named entity
  | .list entity => .list entity

/-- The line of a field in its object type; scalars can be ordered by. -/
def fieldMember (f : SchemaField) : TypeMember :=
  let argument :=
    match f.output with
    | .scalar _ => some ("orderBy", .named "OrderBy")
    | _ => none
  ⟨f.name, argument, outputReference f.output⟩

/-- The line of a field in the criteria of its entity. -/
def criteriaMember (f : SchemaField) : TypeMember := ⟨f.name, none, .named f.criteria.name⟩

/-- The lines that all criteria begin with. -/
def combinators (criteria : String) : List TypeMember :=
  [⟨"AND", none, .full criteria⟩, ⟨"OR", none, .full criteria⟩, ⟨"NOT", none, .named criteria⟩]

/-- The root type of an entity, its object type and its criteria. -/
def entityDefinitions (e : EntityType) : List TypeDefinition :=
  [.object e.rootName [⟨"select", none, .list e.name⟩], .object e.name (e.fields.map fieldMember),
    .input e.criteriaName (combinators e.criteriaName ++ e.fields.map criteriaMember)]

/-- The type of the operand of an operator. -/
def operandReference (scalar : String) (op : FilterOperator) : TypeReference :=
  if op.takesList then .list scalar
  else if op.takesFlag then .named "Boolean"
  else if op = .like then .named "String"
  else .named scalar

/-- The line of an operator in the criteria of a scalar. -/
def operatorMember (scalar : String) (op : FilterOperator) : TypeMember :=
  ⟨op.token, none, operandReference scalar op⟩

/-- The criteria of a scalar. -/
def criteriaDefinition (c : ScalarCriteria) : TypeDefinition :=
  .input c.typeName (c.operators.map (operatorMember c.scalar))

/-- The directions of an order. -/
def orderDefinition : TypeDefinition := .enum "OrderBy" ["ASC", "DESC"]

/-- What the schema defines, in the order of its text. -/
def definitions (s : QuerySchema) : List TypeDefinition :=
  s.customScalars.map s.scalarDefinition ++ [s.queryDefinition] ++
    s.entities.flatMap entityDefinitions ++ s.scalarCriteria.map criteriaDefinition ++
    [orderDefinition]

/-- The names that the schema defines, as often as it does. -/
def definedNames (s : QuerySchema) : List String := s.definitions.map (·.name)

/-- The types that the schema speaks of. -/
def references (s : QuerySchema) : List String := s.definitions.flatMap (·.references)

/-! ### The text -/

section Text

variable (s : QuerySchema)

theorem text_fieldMember (f : SchemaField) : (fieldMember f).text = fieldLine f := by
  simp only [TypeMember.text, fieldMember, fieldLine]
  cases f.output <;> rfl

theorem text_criteriaMember (f : SchemaField) :
    (criteriaMember f).text = f.name ++ ": " ++ f.criteria.name := by
  simp [TypeMember.text, criteriaMember, TypeReference.text]

theorem text_operandReference (scalar : String) (op : FilterOperator) :
    (operandReference scalar op).text = operandText scalar op := by
  simp only [operandReference, operandText]
  split_ifs <;> rfl

theorem text_scalarDefinition (name : String) :
    (s.scalarDefinition name).text = s.scalarText name := by
  simp only [scalarDefinition, TypeDefinition.text, scalarText]
  cases s.registry.bindings.find? (·.name = name) <;> rfl

theorem text_queryDefinition :
    s.queryDefinition.text = block "type Query" (s.entities.map fun e =>
      e.rootName ++ "(where: " ++ e.criteriaName ++ "): " ++ e.rootName) := by
  show block ("type " ++ "Query") _ = _
  rw [List.map_map]
  refine congrArg (block _) (List.map_congr_left fun e _ => ?_)
  apply String.toList_injective
  simp [TypeMember.text, TypeReference.text]

theorem text_entityDefinitions (e : EntityType) :
    String.join ((entityDefinitions e).map (·.text)) = entityText e := by
  -- Member by member: the line that is printed is the text of its definition.
  have select : TypeMember.text ⟨"select", none, .list e.name⟩ = "select: [" ++ e.name ++ "]" := by
    apply String.toList_injective
    simp [TypeMember.text, TypeReference.text]
  have fields : (e.fields.map fieldMember).map (·.text) = e.fields.map fieldLine := by
    rw [List.map_map]
    exact List.map_congr_left fun f _ => text_fieldMember f
  have criteria : (e.fields.map criteriaMember).map (·.text) =
      e.fields.map fun f => f.name ++ ": " ++ f.criteria.name := by
    rw [List.map_map]
    exact List.map_congr_left fun f _ => text_criteriaMember f
  have combined : (combinators e.criteriaName).map (·.text) =
      ["AND: [" ++ e.criteriaName ++ "!]", "OR: [" ++ e.criteriaName ++ "!]",
        "NOT: " ++ e.criteriaName] := by
    simp only [combinators, List.map_cons, List.map_nil, TypeMember.text, TypeReference.text]
    refine congrArg₂ _ ?_ (congrArg₂ _ ?_ (congrArg₂ _ ?_ rfl)) <;>
      (apply String.toList_injective; simp)
  simp only [entityDefinitions, entityText, List.map_cons, List.map_nil, TypeDefinition.text,
    List.map_append, select, fields, criteria, combined, String.join_cons, String.join_nil,
    String.append_empty, String.append_assoc]

/-- The text of a criteria type is that of its definition. -/
theorem text_criteriaDefinition (c : ScalarCriteria) :
    (criteriaDefinition c).text = criteriaText c := by
  simp only [criteriaDefinition, TypeDefinition.text, criteriaText, List.map_map]
  refine congrArg (block _) (List.map_congr_left fun op _ => ?_)
  simp [TypeMember.text, operatorMember, text_operandReference]

/-- The text of a schema is that of its definitions. -/
theorem sdl_eq_text : s.sdl = String.join (s.definitions.map (·.text)) := by
  have scalars : (s.customScalars.map s.scalarDefinition).map (·.text) =
      s.customScalars.map s.scalarText := by
    rw [List.map_map]
    exact List.map_congr_left fun name _ => text_scalarDefinition s name
  have criteria : (s.scalarCriteria.map criteriaDefinition).map (·.text) =
      s.scalarCriteria.map criteriaText := by
    rw [List.map_map]
    exact List.map_congr_left fun c _ => text_criteriaDefinition c
  have entities : ∀ es : List EntityType,
      String.join ((es.flatMap entityDefinitions).map (·.text)) =
        String.join (es.map entityText) := by
    intro es
    induction es with
    | nil => rfl
    | cons e es ih =>
      rw [List.flatMap_cons, List.map_append, String.join_append, text_entityDefinitions, ih,
        List.map_cons, String.join_cons]
  -- The order of results is the same in every schema, and can be computed.
  have order : orderDefinition.text = "enum OrderBy \x7b\n  ASC\n  DESC\n\x7d\n" := by decide +kernel
  simp only [sdl, definitions, List.map_append, scalars, criteria, String.join_append, entities,
    List.map_cons, List.map_nil, String.join_cons, String.join_nil, String.append_empty,
    text_queryDefinition, order]

end Text

/-! ### The criteria of the scalars -/

section Firsts

variable {α : Type} {nameOf : α → String} {xs : List α} {x y : α}

/-- Of the elements of one name the first, in order. -/
def firstsOf (nameOf : α → String) (xs : List α) : List α :=
  xs.foldl (fun kept x => if kept.any (nameOf · = nameOf x) then kept else kept ++ [x]) []

/-- One more element is kept if none of its name was. -/
theorem firstsOf_concat (nameOf : α → String) (xs : List α) (y : α) :
    firstsOf nameOf (xs ++ [y]) =
      if ∃ k ∈ firstsOf nameOf xs, nameOf k = nameOf y then firstsOf nameOf xs
      else firstsOf nameOf xs ++ [y] := by
  rw [firstsOf, List.foldl_concat]
  refine if_congr ?_ rfl rfl
  simp only [List.any_eq_true, decide_eq_true_eq, firstsOf]

/-- The first elements of every name have different names. -/
theorem nodup_firstsOf (nameOf : α → String) (xs : List α) :
    ((firstsOf nameOf xs).map nameOf).Nodup := by
  induction xs using List.reverseRecOn with
  | nil => exact List.nodup_nil
  | append_singleton xs y ih =>
    rw [firstsOf_concat]
    split_ifs with again
    · exact ih
    · rw [List.map_append, List.map_singleton, List.nodup_append]
      refine ⟨ih, List.nodup_singleton _, fun n hn m hm same => again ?_⟩
      obtain ⟨k, hk, rfl⟩ := List.mem_map.1 hn
      exact ⟨k, hk, same.trans (List.mem_singleton.1 hm)⟩

/-- What is kept is what is found under its name. -/
theorem mem_firstsOf : x ∈ firstsOf nameOf xs ↔ xs.find? (nameOf · = nameOf x) = some x := by
  induction xs using List.reverseRecOn generalizing x with
  | nil => exact iff_of_false List.not_mem_nil fun h => nomatch h
  | append_singleton xs y ih =>
    rw [firstsOf_concat, List.find?_append]
    by_cases name : nameOf y = nameOf x
    · have alone : [y].find? (nameOf · = nameOf x) = some y :=
        List.find?_cons_of_pos (decide_eq_true name)
      rw [alone]
      split_ifs with again
      · -- The name was kept before, and so it is found before `y`.
        obtain ⟨k, hk, same⟩ := again
        have found := ih.1 hk
        rw [same, name] at found
        rw [ih, found, Option.some_or]
      · have absent : xs.find? (nameOf · = nameOf x) = none := by
          refine Option.eq_none_iff_forall_ne_some.2 fun k found => again ?_
          have same : nameOf k = nameOf x := by simpa using List.find?_some found
          rw [← same] at found
          exact ⟨k, ih.2 found, same.trans name.symm⟩
        rw [List.mem_append, List.mem_singleton, ih, absent, Option.none_or, Option.some.injEq]
        exact ⟨fun h => (h.resolve_left (Option.some_ne_none x).symm).symm, fun h => .inr h.symm⟩
    · have other : [y].find? (nameOf · = nameOf x) = none := by
        rw [List.find?_cons_of_neg (by simpa using name), List.find?_nil]
      rw [other, Option.or_none, ← ih]
      split_ifs
      · rfl
      · rw [List.mem_append, List.mem_singleton]
        exact or_iff_left fun same => name (congrArg nameOf same.symm)

end Firsts

/-- The fields of scalars, in the order of the schema. -/
def scalarFields (s : QuerySchema) : List SchemaField := s.entities.flatMap (·.scalarFields)

/-- The criteria that the fields of scalars bring along. -/
def broughtCriteria (s : QuerySchema) : List ScalarCriteria :=
  s.scalarFields.filterMap scalarCriteria?

section Criteria

variable {s : QuerySchema} {c : ScalarCriteria}

/-- The criteria types of scalars are the first of each name, in some order. -/
theorem scalarCriteria_perm (s : QuerySchema) :
    s.scalarCriteria.Perm (firstsOf (·.typeName) s.broughtCriteria) :=
  List.mergeSort_perm _ _

/-- A criteria type is printed if it is the first of its name. -/
theorem mem_scalarCriteria :
    c ∈ s.scalarCriteria ↔ s.broughtCriteria.find? (·.typeName = c.typeName) = some c :=
  (scalarCriteria_perm s).mem_iff.trans mem_firstsOf

theorem nodup_scalarCriteria (s : QuerySchema) : (s.scalarCriteria.map (·.typeName)).Nodup :=
  ((scalarCriteria_perm s).map _).nodup_iff.2 (nodup_firstsOf _ _)

/-- All criteria that fields bring along are among those of the schema. -/
theorem exists_mem_scalarCriteria (hc : c ∈ s.broughtCriteria) :
    ∃ kept ∈ s.scalarCriteria, kept.typeName = c.typeName := by
  obtain ⟨kept, found⟩ := Option.isSome_iff_exists.1
    (List.find?_isSome (p := fun k => k.typeName = c.typeName).2 ⟨c, hc, decide_eq_true rfl⟩)
  have same : kept.typeName = c.typeName := by simpa using List.find?_some found
  exact ⟨kept, mem_scalarCriteria.2 (same ▸ found), same⟩

theorem dropRepeats_sublist : ∀ names : List String, (dropRepeats names).Sublist names
  | [] => .slnil
  | [_] => .refl _
  | x :: y :: rest => by
    rw [dropRepeats]
    split_ifs
    · exact (dropRepeats_sublist (y :: rest)).cons x
    · exact (dropRepeats_sublist (y :: rest)).cons_cons x

/-- Dropping repetitions loses no name. -/
theorem mem_dropRepeats {n : String} : ∀ names : List String, n ∈ dropRepeats names ↔ n ∈ names
  | [] => Iff.rfl
  | [_] => Iff.rfl
  | x :: y :: rest => by
    rw [dropRepeats, List.mem_cons]
    split_ifs with same
    · rw [mem_dropRepeats (y :: rest), same]
      exact (or_iff_right_of_imp fun h => h ▸ List.mem_cons_self).symm
    · rw [List.mem_cons, mem_dropRepeats (y :: rest)]

/-- A scalar is declared if it is used and not built in. -/
theorem mem_customScalars {n : String} :
    n ∈ s.customScalars ↔ (∃ c ∈ s.scalarCriteria, c.scalar = n) ∧ n ∉ builtInScalars := by
  rw [customScalars, mem_dropRepeats, List.mem_filter, List.mem_map, Bool.not_eq_true',
    ← Bool.not_eq_true, List.contains_iff_mem]

end Criteria

/-! ### The fields of a schema that was built -/

section Built

variable {all : List EntityDescriptor} {registry : ScalarRegistry} {name : String}
variable {s : QuerySchema} {e : EntityType} {f : SchemaField} {c : ScalarCriteria}

/-- Every field of a built schema was built from a descriptor. -/
theorem builtFrom_of_build (h : build name all registry = .ok s) (he : e ∈ s.entities)
    (hf : f ∈ e.fields) : ∃ d, BuiltFrom all registry d f := by
  obtain ⟨d, _, built⟩ := field_of_build h e he f hf
  exact ⟨d, builtFrom_of_buildField built⟩

/-- The fields of scalars are those with a binding. -/
theorem exists_scalarField_of_build (h : build name all registry = .ok s) (he : e ∈ s.entities)
    (hf : f ∈ e.scalarFields) : f ∈ e.fields ∧ ∃ d b, f = scalarField d b := by
  obtain ⟨hf, valued⟩ := List.mem_filter.1 hf
  refine ⟨hf, ?_⟩
  obtain ⟨d, built⟩ := builtFrom_of_build h he hf
  cases built with
  | scalar => exact ⟨d, _, rfl⟩
  | toOne kind _ | toMany kind _ =>
    have unvalued : d.valueClass? = none := by rw [FieldDescriptor.valueClass?, kind]
    rw [show (associationField d _ _).descriptor.valueClass? = none from unvalued] at valued
    cases valued

/-- The criteria that a field of scalars brings along. -/
theorem scalarCriteria?_scalarField (d : FieldDescriptor) (b : ScalarBinding) :
    scalarCriteria? (scalarField d b) = some ⟨scalarCriteriaName b.name, b.name, b.operators⟩ :=
  rfl

/-- Criteria are called after their scalar. -/
theorem typeName_of_mem (h : build name all registry = .ok s) (hc : c ∈ s.scalarCriteria) :
    c.typeName = scalarCriteriaName c.scalar := by
  have brought : c ∈ s.broughtCriteria := List.mem_of_find?_eq_some (mem_scalarCriteria.1 hc)
  obtain ⟨f, hf, brings⟩ := List.mem_filterMap.1 brought
  obtain ⟨e, he, hf⟩ := List.mem_flatMap.1 hf
  obtain ⟨-, d, b, rfl⟩ := exists_scalarField_of_build h he hf
  cases brings
  rfl

/-- In a built schema criteria types are named after their roots. -/
theorem criteriaName_of_build (h : build name all registry = .ok s) :
    ∀ e ∈ s.entities, e.criteriaName = criteriaTypeName e.rootName :=
  forall_of_build h fun _ _ one => by
    obtain ⟨_, -, _, -, _, -, -, rfl⟩ := buildEntity_eq_ok.1 one
    rfl

end Built

end QuerySchema

end EntityQuery
