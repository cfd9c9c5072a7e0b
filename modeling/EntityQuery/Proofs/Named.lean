/-
EntityQuery/Proofs/Named.lean

Whether the types of a schema are defined, and defined once.

The names of the definitions come from five places: the scalars, the root
fields, the entities, and the criteria of entities and of scalars.  Names from
one place are different, and so are the names that are made up, since criteria
end in one of two ways (`QuerySchema.nodup_derivedNames`).  So a type is defined
twice exactly if two names of the model meet, or one of them is a name that is
made up (`QuerySchema.NamesApart`).  Building compares root fields with each
other, and entities with each other, but no more: an entity that is called as
its own root field is defined twice (`Sample.not_defined_once`).

No name is left undefined.  A field leads to a scalar that is built in or
declared, or to an entity of the schema, and every scalar of a field has its
criteria (`QuerySchema.known_of_mem_references`).
-/
import EntityQuery.Proofs.Defined

namespace EntityQuery

namespace QuerySchema

variable {all : List EntityDescriptor} {registry : ScalarRegistry} {name : String}
variable {s : QuerySchema} {e : EntityType} {f : SchemaField} {c : ScalarCriteria} {n : String}

/-! ### Names -/

/-- Criteria types of different scalars have different names. -/
theorem scalarCriteriaName_injective : Function.Injective scalarCriteriaName :=
  fun _ _ h => (String.append_left_inj _).1 h

theorem criteriaTypeName_injective : Function.Injective criteriaTypeName :=
  fun _ _ h => (String.append_left_inj _).1 h

/-- The last letter tells the names apart that are made up. -/
def lastLetter (name : String) : Option Char := name.toList.getLast?

@[simp] theorem lastLetter_scalarCriteriaName (n : String) :
    lastLetter (scalarCriteriaName n) = 'a' := by
  simp [lastLetter, scalarCriteriaName]

@[simp] theorem lastLetter_criteriaTypeName (n : String) :
    lastLetter (criteriaTypeName n) = 'n' := by
  simp [lastLetter, criteriaTypeName]

/-- Criteria types of scalars are told by their last letter. -/
theorem lastLetter_of_mem_criteria (h : build name all registry = .ok s)
    (hn : n ∈ s.scalarCriteria.map (·.typeName)) : lastLetter n = 'a' := by
  obtain ⟨c, hc, rfl⟩ := List.mem_map.1 hn
  rw [typeName_of_mem h hc, lastLetter_scalarCriteriaName]

theorem lastLetter_of_mem_expressions (h : build name all registry = .ok s)
    (hn : n ∈ s.entities.map (·.criteriaName)) : lastLetter n = 'n' := by
  obtain ⟨e, he, rfl⟩ := List.mem_map.1 hn
  rw [criteriaName_of_build h e he, lastLetter_criteriaTypeName]

/-- The names of the entities. -/
def entityNames (s : QuerySchema) : List String := s.entities.map (·.name)

/-- The names that the model and its scalars give. -/
def givenNames (s : QuerySchema) : List String := s.customScalars ++ s.rootNames ++ s.entityNames

/-- The names that are made up. -/
def derivedNames (s : QuerySchema) : List String :=
  ["Query", "OrderBy"] ++ s.entities.map (·.criteriaName) ++ s.scalarCriteria.map (·.typeName)

/-- No scalar is called as a root field or an entity, no root field as an
entity, and none of them as a type that is made up. -/
structure NamesApart (s : QuerySchema) : Prop where
  scalars : ∀ n ∈ s.customScalars, n ∉ s.rootNames ∧ n ∉ s.entityNames
  roots : ∀ n ∈ s.rootNames, n ∉ s.entityNames
  derived : ∀ n ∈ s.givenNames, n ∉ s.derivedNames

/-- The names that are defined are those that were given and those derived from
them. -/
theorem definedNames_perm (s : QuerySchema) :
    s.definedNames.Perm (s.givenNames ++ s.derivedNames) := by
  have entities : ∀ es : List EntityType, ((es.flatMap entityDefinitions).map (·.name)).Perm
      (es.map (·.rootName) ++ es.map (·.name) ++ es.map (·.criteriaName)) := by
    intro es
    induction es with
    | nil => exact .nil
    | cons e es ih =>
      have count := List.perm_iff_count.1 ih
      refine List.perm_iff_count.2 fun n => ?_
      have rest := count n
      simp only [List.flatMap_cons, List.map_append, List.count_append, entityDefinitions,
        List.map_cons, List.map_nil, List.count_cons, List.count_nil, TypeDefinition.name] at rest ⊢
      omega
  have scalars : (s.customScalars.map s.scalarDefinition).map (·.name) = s.customScalars := by
    rw [List.map_map]
    exact List.map_id' _
  have criteria : (s.scalarCriteria.map criteriaDefinition).map (·.name) =
      s.scalarCriteria.map (·.typeName) := by
    rw [List.map_map]
    rfl
  -- Both lists have every name equally often.
  have query : s.queryDefinition.name = "Query" := rfl
  have order : orderDefinition.name = "OrderBy" := rfl
  refine List.perm_iff_count.2 fun n => ?_
  have among := List.perm_iff_count.1 (entities s.entities) n
  simp only [definedNames, definitions, givenNames, derivedNames, rootNames, entityNames,
    List.map_append, scalars, criteria, List.count_append, List.map_cons, List.map_nil,
    List.count_cons, List.count_nil, query, order] at among ⊢
  omega

/-- A name is defined if it was given, or derived from one that was. -/
theorem mem_definedNames : n ∈ s.definedNames ↔ n ∈ s.givenNames ∨ n ∈ s.derivedNames :=
  (definedNames_perm s).mem_iff.trans List.mem_append

/-- A derived name ends in one of three letters. -/
theorem lastLetter_of_mem_derivedNames (h : build name all registry = .ok s)
    (hn : n ∈ s.derivedNames) : lastLetter n ∈ ['y', 'n', 'a'].map some := by
  rcases List.mem_append.1 hn with hn | hn
  · rcases List.mem_append.1 hn with hn | hn
    · rcases List.mem_pair.1 hn with rfl | rfl <;> decide
    · rw [lastLetter_of_mem_expressions h hn]
      decide
  · rw [lastLetter_of_mem_criteria h hn]
    decide

/-- Names that are made up are different. -/
theorem nodup_derivedNames (h : build name all registry = .ok s) : s.derivedNames.Nodup := by
  have expressions : (s.entities.map (·.criteriaName)).Nodup := by
    have roots := (nodup_rootNames h).map criteriaTypeName_injective
    rw [rootNames, List.map_map] at roots
    rw [List.map_congr_left (criteriaName_of_build h)]
    exact roots
  rw [derivedNames, List.nodup_append, List.nodup_append]
  refine ⟨⟨by decide, expressions, fun n hn m hm same => ?_⟩, nodup_scalarCriteria s,
    fun n hn m hm same => ?_⟩
  -- Names of two places that were the same would end in the same letter.
  · have last := lastLetter_of_mem_expressions h hm
    subst same
    rcases List.mem_pair.1 hn with rfl | rfl <;> cases last
  · have last := lastLetter_of_mem_criteria h hm
    subst same
    rcases List.mem_append.1 hn with hn | hn
    · rcases List.mem_pair.1 hn with rfl | rfl <;> cases last
    · rw [lastLetter_of_mem_expressions h hn] at last
      cases last

/-- Every custom scalar is declared once. -/
theorem nodup_customScalars (h : build name all registry = .ok s) : s.customScalars.Nodup := by
  have scalars : (s.scalarCriteria.map (·.scalar)).Nodup := by
    have names := nodup_scalarCriteria s
    rw [List.map_congr_left fun c hc => typeName_of_mem h hc] at names
    refine List.Nodup.of_map scalarCriteriaName ?_
    rwa [List.map_map]
  exact (scalars.filter _).sublist (dropRepeats_sublist _)

/-- Types are defined once exactly if the names are apart. -/
theorem nodup_definedNames_iff (h : build name all registry = .ok s) :
    s.definedNames.Nodup ↔ s.NamesApart := by
  rw [(definedNames_perm s).nodup_iff, List.nodup_append, and_iff_right (nodup_derivedNames h)]
  have entities : s.entityNames.Nodup := nodup_entityNames h
  -- Names of one kind are different in any built schema, so that the kinds have to be kept apart.
  simp only [givenNames, List.nodup_append, nodup_customScalars h, nodup_rootNames h, entities,
    true_and]
  constructor
  · rintro ⟨⟨roots, entities⟩, derived⟩
    exact ⟨fun n hn => ⟨fun hr => roots n hn n hr rfl,
      fun he => entities n (List.mem_append_left _ hn) n he rfl⟩,
      fun n hn he => entities n (List.mem_append_right _ hn) n he rfl,
      fun n hn hd => derived n hn n hd rfl⟩
  · rintro ⟨scalars, roots, derived⟩
    refine ⟨⟨fun n hn m hm same => (scalars n hn).1 (same ▸ hm), fun n hn m hm same => ?_⟩,
      fun n hn m hm same => derived n hn (same ▸ hm)⟩
    rcases List.mem_append.1 hn with hn | hn
    · exact (scalars n hn).2 (same ▸ hm)
    · exact roots n hn (same ▸ hm)

/-! ### References -/

/-- The name is defined, or the scalar of this name is built in. -/
def Known (s : QuerySchema) (n : String) : Prop := n ∈ s.definedNames ∨ n ∈ builtInScalars

theorem known_of_mem_givenNames (hn : n ∈ s.givenNames) : s.Known n :=
  .inl (mem_definedNames.2 (.inl hn))

theorem known_of_mem_derivedNames (hn : n ∈ s.derivedNames) : s.Known n :=
  .inl (mem_definedNames.2 (.inr hn))

/-- The type of an entity is known. -/
theorem known_entity (he : e ∈ s.entities) : s.Known e.name :=
  known_of_mem_givenNames (List.mem_append_right _ (List.mem_map_of_mem he))

theorem known_root (he : e ∈ s.entities) : s.Known e.rootName :=
  known_of_mem_givenNames
    (List.mem_append_left _ (List.mem_append_right _ (List.mem_map_of_mem he)))

theorem known_expression (he : e ∈ s.entities) : s.Known e.criteriaName :=
  known_of_mem_derivedNames
    (List.mem_append_left _ (List.mem_append_right _ (List.mem_map_of_mem he)))

theorem known_criteria (hc : c ∈ s.scalarCriteria) : s.Known c.typeName :=
  known_of_mem_derivedNames (List.mem_append_right _ (List.mem_map_of_mem hc))

/-- A scalar with criteria is declared, unless it is built in. -/
theorem known_scalar (hc : c ∈ s.scalarCriteria) : s.Known c.scalar := by
  by_cases built : c.scalar ∈ builtInScalars
  · exact .inr built
  · have declared : c.scalar ∈ s.customScalars := mem_customScalars.2 ⟨⟨c, hc, rfl⟩, built⟩
    exact known_of_mem_givenNames
      (List.mem_append_left _ (List.mem_append_left _ declared))

/-- The type of an operand is known, whatever the operator. -/
theorem known_operand (hc : c ∈ s.scalarCriteria) (op : FilterOperator) :
    s.Known (operandReference c.scalar op).name := by
  rw [operandReference]
  split_ifs
  · exact known_scalar hc
  · exact .inr (by decide)
  · exact .inr (by decide)
  · exact known_scalar hc

/-- A field leads to a type that is known, and so do its criteria. -/
theorem known_field (h : build name all registry = .ok s) (he : e ∈ s.entities)
    (hf : f ∈ e.fields) : s.Known (outputReference f.output).name ∧ s.Known f.criteria.name := by
  obtain ⟨d, built⟩ := builtFrom_of_build h he hf
  cases built with
  | @scalar c b kind resolved =>
    have scalar : scalarField d b ∈ e.scalarFields := by
      refine List.mem_filter.2 ⟨hf, ?_⟩
      show d.valueClass?.isSome = true
      rw [FieldDescriptor.valueClass?, kind]
      rfl
    -- The criteria type of the field may be printed for another field of the
    -- scalar, under the same name.
    obtain ⟨kept, hk, same⟩ := exists_mem_scalarCriteria
      (List.mem_filterMap.2 ⟨_, List.mem_flatMap.2 ⟨e, he, scalar⟩, scalarCriteria?_scalarField d b⟩)
    have known := known_criteria hk
    rw [same] at known
    rw [typeName_of_mem h hk] at same
    have scalar := known_scalar hk
    rw [scalarCriteriaName_injective same] at scalar
    exact ⟨scalar, known⟩
  | toOne _ among | toMany _ among =>
    obtain ⟨t, ht, rfl⟩ := exists_of_build h _ among
    have expression := known_expression ht
    rw [criteriaName_of_build h t ht, rootName_of_build h t ht] at expression
    exact ⟨known_entity ht, expression⟩

/-- The lines that all criteria begin with lead back to them. -/
theorem mem_references_combinators {criteria : String} {m : TypeMember}
    (hm : m ∈ combinators criteria) (hn : n ∈ m.references) : n = criteria := by
  simp only [combinators, List.mem_cons, List.not_mem_nil, or_false] at hm
  rcases hm with rfl | rfl | rfl <;> exact List.mem_singleton.1 hn

/-- The line of a field speaks of its type, and of directions if it can be
ordered by. -/
theorem mem_references_fieldMember (hn : n ∈ (fieldMember f).references) :
    n = "OrderBy" ∨ n = (outputReference f.output).name := by
  rcases TypeMember.mem_references.1 hn with ⟨a, argument, rfl⟩ | rfl
  · left
    simp only [fieldMember] at argument
    split at argument
    · cases argument
      rfl
    · cases argument
  · exact .inr rfl

/-- Whatever the definitions of an entity refer to is known. -/
theorem known_of_mem_entityDefinitions (h : build name all registry = .ok s) (he : e ∈ s.entities)
    {d : TypeDefinition} (hd : d ∈ entityDefinitions e) (hn : n ∈ d.references) : s.Known n := by
  simp only [entityDefinitions, List.mem_cons, List.not_mem_nil, or_false] at hd
  -- An entity has three definitions: its selection, its type and its criteria.
  rcases hd with rfl | rfl | rfl <;> obtain ⟨m, hm, hn⟩ := List.mem_flatMap.1 hn
  · rw [List.mem_singleton.1 hm] at hn
    rw [List.mem_singleton.1 hn]
    exact known_entity he
  · obtain ⟨f, hf, rfl⟩ := List.mem_map.1 hm
    rcases mem_references_fieldMember hn with rfl | rfl
    · exact known_of_mem_derivedNames
        (List.mem_append_left _ (List.mem_append_left _ (List.mem_cons_of_mem _ List.mem_cons_self)))
    · exact (known_field h he hf).1
  · rcases List.mem_append.1 hm with hm | hm
    · rw [mem_references_combinators hm hn]
      exact known_expression he
    · obtain ⟨f, hf, rfl⟩ := List.mem_map.1 hm
      rw [List.mem_singleton.1 hn]
      exact (known_field h he hf).2

/-- Every type that the schema speaks of is known. -/
theorem known_of_mem_references (h : build name all registry = .ok s) (hn : n ∈ s.references) :
    s.Known n := by
  obtain ⟨d, hd, hn⟩ := List.mem_flatMap.1 hn
  -- Declarations of scalars and of the directions speak of nothing.
  simp only [definitions, List.mem_append, List.mem_map, List.mem_flatMap, List.mem_singleton] at hd
  rcases hd with (((⟨scalar, -, rfl⟩ | rfl) | ⟨e, he, hd⟩) | ⟨c, hc, rfl⟩) | rfl
  · cases hn
  · obtain ⟨m, hm, hn⟩ := List.mem_flatMap.1 hn
    obtain ⟨e, he, rfl⟩ := List.mem_map.1 hm
    rcases List.mem_pair.1 hn with rfl | rfl
    · exact known_expression he
    · exact known_root he
  · exact known_of_mem_entityDefinitions h he hd hn
  · obtain ⟨m, hm, hn⟩ := List.mem_flatMap.1 hn
    obtain ⟨op, -, rfl⟩ := List.mem_map.1 hm
    rw [List.mem_singleton.1 hn]
    exact known_operand hc op
  · cases hn

/-! ### Defined once -/

/-- **A type is defined twice exactly if two names meet, and none is left
undefined.**  The text of a schema that was built is that of its definitions;
their names are different if and only if no scalar is called as a root field or
an entity, no root field as an entity, and none of them as a type that is made
up; and each type that they speak of is defined or a scalar that is built in. -/
theorem sdl_defines {name : String} {all : List EntityDescriptor} {registry : ScalarRegistry}
    {s : QuerySchema} (built : build name all registry = .ok s) :
    s.sdl = String.join (s.definitions.map (·.text)) ∧
      (s.definedNames.Nodup ↔ s.NamesApart) ∧
      ∀ n ∈ s.references, n ∈ s.definedNames ∨ n ∈ builtInScalars :=
  ⟨sdl_eq_text s, nodup_definedNames_iff built, fun _ hn => known_of_mem_references built hn⟩

end QuerySchema

namespace Sample

/-- The library declares its attributes, and no other scalar. -/
theorem customScalars_schema {n : String} (hn : n ∈ schema.customScalars) : n = "Attributes" := by
  obtain ⟨⟨c, hc, rfl⟩, custom⟩ := QuerySchema.mem_customScalars.1 hn
  have brought : (QuerySchema.firstsOf (·.typeName) schema.broughtCriteria).map (·.scalar) =
      ["ID", "String", "Attributes"] := rfl
  have among := List.mem_map_of_mem (f := QuerySchema.ScalarCriteria.scalar)
    ((QuerySchema.scalarCriteria_perm schema).mem_iff.1 hc)
  rw [brought] at among
  revert custom
  simp only [List.mem_cons, List.not_mem_nil, or_false] at among
  rcases among with same | same | same <;> rw [same] <;> decide

/-- Sheep, one or many. -/
def sheep : EntityDescriptor :=
  ⟨"Sheep", some "Sheep", none, "sheep", some "id", [id.descriptor]⟩

end Sample

/-- In the library, scalars, root fields and entities have different names, which
end in other letters than those that are made up. -/
theorem sdl_defines_library :
    Sample.schema.definedNames.Nodup ∧
      ∀ n ∈ Sample.schema.references,
        n ∈ Sample.schema.definedNames ∨ n ∈ QuerySchema.builtInScalars := by
  obtain ⟨-, once, known⟩ := QuerySchema.sdl_defines Sample.schema_built
  refine ⟨once.2 ⟨fun n hn => ?_, by decide, fun n hn derived => ?_⟩, known⟩
  · rw [Sample.customScalars_schema hn]
    decide
  · have given : n ∈ ["Attributes", "authors", "books", "Author", "Book"] := by
      rw [QuerySchema.givenNames, List.append_assoc, List.mem_append] at hn
      exact hn.elim (fun h => Sample.customScalars_schema h ▸ List.mem_cons_self)
        (List.mem_cons_of_mem _)
    have others : ∀ m ∈ ["Attributes", "authors", "books", "Author", "Book"],
        QuerySchema.lastLetter m ∉ ['y', 'n', 'a'].map some := by decide
    exact others n given (QuerySchema.lastLetter_of_mem_derivedNames Sample.schema_built derived)

/-- A root field that is called as its entity makes a schema, and the type of
the one has the name of the other. -/
theorem Sample.not_defined_once :
    ∃ s, QuerySchema.build "farm" [Sample.sheep] .empty = .ok s ∧ ¬ s.definedNames.Nodup := by
  obtain ⟨s, built⟩ : ∃ s, QuerySchema.build "farm" [Sample.sheep] .empty = .ok s := ⟨_, rfl⟩
  refine ⟨s, built, fun once => ?_⟩
  have apart := (QuerySchema.nodup_definedNames_iff built).1 once
  cases built
  exact apart.roots "Sheep" List.mem_cons_self List.mem_cons_self

end EntityQuery
