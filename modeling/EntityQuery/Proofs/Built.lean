/-
EntityQuery/Proofs/Built.lean

Schemas that are built from entity models.

Every entity of such a schema was built from one of the descriptors
(`QuerySchema.forall_of_build`), and every descriptor has its entity
(`QuerySchema.exists_of_build`).  So the identifier of an entity is one of
its fields (`QuerySchema.identified_of_build`), and an association always
leads to an entity of the schema (`QuerySchema.leads_of_build`).
-/
import EntityQuery.Proofs.Outcome
import EntityQuery.Schema.Build

namespace EntityQuery.QuerySchema

variable {all rest descriptors : List EntityDescriptor} {registry : ScalarRegistry}
variable {before built : List EntityType} {P : EntityType → Prop} {name : String}
variable {s : QuerySchema}

/-! ### Entities and their descriptors -/

/-- What holds of every entity that can be built holds of all that were. -/
theorem forall_of_buildEntities
    (each : ∀ descriptor e, buildEntity all registry descriptor = .ok e → P e)
    (h : buildEntities all registry before rest = .ok built) (earlier : ∀ e ∈ before, P e) :
    ∀ e ∈ built, P e := by
  -- What was built so far carries the invariant, since later entities are added behind it.
  induction rest generalizing before with
  | nil =>
    cases h
    exact earlier
  | cons descriptor rest ih =>
    obtain ⟨entity, one, h⟩ := Outcome.bind_eq_ok.1 h
    split at h
    · cases h
    · refine ih h fun e he => ?_
      rcases List.mem_append.1 he with he | he
      · exact earlier e he
      · rw [List.mem_singleton.1 he]
        exact each descriptor entity one

/-- A built entity has its descriptor, the fields built from it and its
identifier among them. -/
theorem descriptor_of_buildEntity {descriptor : EntityDescriptor} {e : EntityType}
    (h : buildEntity all registry descriptor = .ok e) :
    e.descriptor = descriptor ∧
      buildFields all registry descriptor.name [] descriptor.fields = .ok e.fields ∧
      e.field? e.idField.name = some e.idField := by
  simp only [buildEntity] at h
  split at h
  -- An entity without an identifier, or with one that is no field, is not built.
  case h_2 => cases h
  next idName named =>
  obtain ⟨fields, made, h⟩ := Outcome.bind_eq_ok.1 h
  split at h
  case h_2 => cases h
  next idField found =>
  split at h
  · obtain ⟨_, h', -⟩ := Outcome.bind_eq_ok.1 h
    cases h'
  · cases h
    have name : idField.name = idName := by simpa using List.find?_some found
    refine ⟨rfl, made, ?_⟩
    simp only [EntityType.field?]
    rw [name]
    exact found

/-- Every descriptor has its entity. -/
theorem exists_of_buildEntities (h : buildEntities all registry before rest = .ok built) :
    before ⊆ built ∧ ∀ descriptor ∈ rest, ∃ e ∈ built, e.descriptor = descriptor := by
  induction rest generalizing before with
  | nil =>
    cases h
    exact ⟨List.Subset.refl _, List.forall_mem_nil _⟩
  | cons descriptor rest ih =>
    obtain ⟨entity, one, h⟩ := Outcome.bind_eq_ok.1 h
    split at h
    · cases h
    · obtain ⟨kept, each⟩ := ih h
      have here : entity ∈ built := kept (List.mem_append_right _ List.mem_cons_self)
      refine ⟨List.Subset.trans (List.subset_append_left _ _) kept,
        List.forall_mem_cons.2 ⟨?_, each⟩⟩
      exact ⟨entity, here, (descriptor_of_buildEntity one).1⟩

theorem build_eq_ok (h : build name descriptors registry = .ok s) :
    buildEntities descriptors registry [] descriptors = .ok s.entities := by
  unfold build at h
  dsimp only at h
  split at h
  · obtain ⟨_, h', -⟩ := Outcome.bind_eq_ok.1 h
    cases h'
  split at h
  · obtain ⟨_, h', -⟩ := Outcome.bind_eq_ok.1 h
    cases h'
  · obtain ⟨built, made, h⟩ := Outcome.bind_eq_ok.1 h
    cases h
    exact made

/-- What holds of every entity that can be built holds of those of the
schema. -/
theorem forall_of_build (h : build name descriptors registry = .ok s)
    (each : ∀ descriptor e, buildEntity descriptors registry descriptor = .ok e → P e) :
    ∀ e ∈ s.entities, P e :=
  forall_of_buildEntities each (build_eq_ok h) (List.forall_mem_nil _)

theorem exists_of_build (h : build name descriptors registry = .ok s) :
    ∀ descriptor ∈ descriptors, ∃ e ∈ s.entities, e.descriptor = descriptor :=
  (exists_of_buildEntities (build_eq_ok h)).2

/-- In a schema that was built, the identifier of every entity is the field
of its name. -/
theorem identified_of_build (h : build name descriptors registry = .ok s) :
    ∀ e ∈ s.entities, e.field? e.idField.name = some e.idField :=
  forall_of_build h fun _ _ one => (descriptor_of_buildEntity one).2.2

/-! ### Associations -/

/-- Every field of an entity was built from one of its descriptor. -/
theorem mem_of_buildFields {entity : String} {seen : List String} {fs : List FieldDescriptor}
    {fields : List SchemaField} (h : buildFields all registry entity seen fs = .ok fields) :
    ∀ field ∈ fields, ∃ f, buildField all registry entity f = .ok field := by
  induction fs generalizing seen fields with
  | nil =>
    cases h
    exact List.forall_mem_nil _
  | cons f fs ih =>
    simp only [buildFields] at h
    split at h
    · obtain ⟨_, h', -⟩ := Outcome.bind_eq_ok.1 h
      cases h'
    · obtain ⟨field, one, h⟩ := Outcome.bind_eq_ok.1 h
      obtain ⟨fields, more, h⟩ := Outcome.bind_eq_ok.1 h
      cases h
      exact List.forall_mem_cons.2 ⟨⟨f, one⟩, ih more⟩

/-- What a field is built to: a field of scalars if its value class is bound, and
an association if its target is one of the entities. -/
inductive BuiltFrom (all : List EntityDescriptor) (registry : ScalarRegistry)
    (f : FieldDescriptor) : SchemaField → Prop
  | scalar {c : String} {b : ScalarBinding} (kind : f.kind = .scalar c)
      (resolved : registry.resolve c = some b) : BuiltFrom all registry f (scalarField f b)
  | toOne {target : EntityDescriptor} {joinColumn : String}
      (kind : f.kind = .toOne target.name joinColumn) (among : target ∈ all) :
      BuiltFrom all registry f (associationField f (.object target.name) target)
  | toMany {target : EntityDescriptor} {mappedBy : String}
      (kind : f.kind = .toMany target.name mappedBy) (among : target ∈ all) :
      BuiltFrom all registry f (associationField f (.list target.name) target)

/-- The target of an association is a descriptor of that name. -/
theorem targetOf_eq_ok {entity field target : String} {d : EntityDescriptor}
    (h : targetOf all entity field target = .ok d) : d ∈ all ∧ d.name = target := by
  simp only [targetOf] at h
  split at h
  · next found =>
    cases h
    exact ⟨List.mem_of_find?_eq_some found, by simpa using List.find?_some found⟩
  · cases h

/-- The cases in which a field can be built. -/
theorem builtFrom_of_buildField {entity : String} {f : FieldDescriptor} {field : SchemaField}
    (h : buildField all registry entity f = .ok field) : BuiltFrom all registry f field := by
  unfold buildField at h
  split at h
  · next kind =>
    split at h
    · next resolved =>
      cases h
      exact .scalar kind resolved
    · cases h
  · next kind =>
    obtain ⟨d, found, rfl⟩ := Outcome.map_eq_ok.1 h
    obtain ⟨among, rfl⟩ := targetOf_eq_ok found
    exact .toOne kind among
  · next kind =>
    obtain ⟨d, found, rfl⟩ := Outcome.map_eq_ok.1 h
    obtain ⟨among, rfl⟩ := targetOf_eq_ok found
    exact .toMany kind among

/-- A field without a scalar was built as an association to a declared
entity. -/
theorem target_of_buildField {entity : String} {f : FieldDescriptor} {field : SchemaField}
    (h : buildField all registry entity f = .ok field) (scalar : field.binding = none) :
    ∃ target ∈ all, field.descriptor.target? = some target.name := by
  cases builtFrom_of_buildField h with
  | scalar => cases scalar
  | @toOne target joinColumn kind among =>
    refine ⟨target, among, ?_⟩
    show f.target? = some target.name
    rw [FieldDescriptor.target?, kind]
  | @toMany target mappedBy kind among =>
    refine ⟨target, among, ?_⟩
    show f.target? = some target.name
    rw [FieldDescriptor.target?, kind]

/-- Associations of an entity lead to entities of the schema. -/
def Leads (s : QuerySchema) (e : EntityType) : Prop :=
  ∀ field ∈ e.fields, field.binding = none →
    ∃ target, field.descriptor.target?.bind s.entity? = some target

/-- In a schema that was built, associations lead to entities of the
schema. -/
theorem leads_of_build (h : build name descriptors registry = .ok s) :
    ∀ e ∈ s.entities, s.Leads e := by
  refine forall_of_build h fun descriptor e one field hf scalar => ?_
  obtain ⟨f, made⟩ := mem_of_buildFields (descriptor_of_buildEntity one).2.1 field hf
  obtain ⟨target, declared, named⟩ := target_of_buildField made scalar
  obtain ⟨e', he', rfl⟩ := exists_of_build h target declared
  have found : (s.entity? e'.descriptor.name).isSome := by
    simp only [entity?]
    exact List.find?_isSome.2 ⟨e', he', by simp [EntityType.name]⟩
  rw [named]
  exact Option.isSome_iff_exists.1 found

end EntityQuery.QuerySchema
