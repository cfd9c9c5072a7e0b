/-
EntityQuery/Proofs/Sound.lean

Which entity models make a schema.

Building looks at the names of the entities first, then goes through the
entities, and inside each through its fields, and stops at the first fault.
Each stage succeeds exactly if the names it meets are all different and each
of its parts succeeds (`buildFields_eq_ok`, `buildEntities_eq_ok`); what it
gives are the results of its parts, in order.  So the faults that are looked
for are the only ones, and a model makes a schema exactly if it is sound
(`EntityDescriptor.AllSound`).

Later stages look up entities and fields by name and never check what they
find.  They may rely on it because a schema that was built is closed
(`QuerySchema.Closed`).
-/
import EntityQuery.Proofs.Built
import EntityQuery.Proofs.Meaning
import Mathlib.Data.List.Nodup

namespace EntityQuery

/-! ### Sound models -/

/-- The entity can be built beside the entities of `all`: its fields have
different names, value classes are bound, associations lead to one of the
entities, and one of the scalar fields is named as the identifier. -/
structure EntityDescriptor.Sound (all : List EntityDescriptor) (registry : ScalarRegistry)
    (e : EntityDescriptor) : Prop where
  names : (e.fields.map (·.name)).Nodup
  scalars : ∀ f ∈ e.fields, ∀ c, f.valueClass? = some c → ∃ b, registry.resolve c = some b
  targets : ∀ f ∈ e.fields, ∀ target, f.target? = some target → ∃ d ∈ all, d.name = target
  identifier : ∃ f ∈ e.fields, e.idField = some f.name ∧ ∃ c, f.valueClass? = some c

/-- There are entities, no two of them have one name or one root field, and
each can be built. -/
structure EntityDescriptor.AllSound (registry : ScalarRegistry) (all : List EntityDescriptor) :
    Prop where
  some : all ≠ []
  names : (all.map (·.name)).Nodup
  roots : (all.map (·.rootName)).Nodup
  each : ∀ e ∈ all, e.Sound all registry

/-- The entities of the schema are those of `all`, in order, and everything
in it can be found: entities by their names and root fields, and by nothing
else; identifiers among the scalar fields; targets of associations among the
entities; and the scalars of fields with their operators in the registry. -/
structure QuerySchema.Closed (all : List EntityDescriptor) (registry : ScalarRegistry)
    (s : QuerySchema) : Prop where
  descriptors : s.entities.map (·.descriptor) = all
  entity : ∀ e ∈ s.entities, s.entity? e.descriptor.name = some e
  root : ∀ e ∈ s.entities, s.root? e.descriptor.rootName = some e
  noEntity : ∀ name, (∀ d ∈ all, d.name ≠ name) → s.entity? name = none
  noRoot : ∀ rootName, (∀ d ∈ all, d.rootName ≠ rootName) → s.root? rootName = none
  fields : ∀ e ∈ s.entities, e.fields.map (·.descriptor) = e.descriptor.fields
  identifier : ∀ e ∈ s.entities, e.field? e.idField.name = some e.idField ∧
    e.descriptor.idField = some e.idField.name ∧ ∃ c, e.idField.descriptor.valueClass? = some c
  targets : ∀ e ∈ s.entities, ∀ f ∈ e.fields, ∀ target, f.descriptor.target? = some target →
    f.binding = none ∧ ∃ t ∈ s.entities, t.descriptor.name = target ∧ s.entity? target = some t
  scalars : ∀ e ∈ s.entities, ∀ f ∈ e.fields, ∀ c, f.descriptor.valueClass? = some c →
    ∃ b, registry.resolve c = some b ∧ f.binding = some b ∧ f.operators = b.operators

/-! ### Names that are taken -/

/-- The names are all different, and none of them is taken already. -/
def Fresh (taken names : List String) : Prop := names.Nodup ∧ ∀ n ∈ names, n ∉ taken

namespace Fresh

variable {taken taken' names : List String} {name : String}

theorem nil (taken : List String) : Fresh taken [] := ⟨List.nodup_nil, List.forall_mem_nil _⟩

theorem nil_left : Fresh [] names ↔ names.Nodup :=
  ⟨fun h => h.1, fun h => ⟨h, fun _ _ => List.not_mem_nil⟩⟩

/-- Freshness depends on which names are taken, not on their order. -/
theorem congr (same : ∀ n, n ∈ taken ↔ n ∈ taken') : Fresh taken names ↔ Fresh taken' names :=
  and_congr_right' (forall₂_congr fun n _ => not_congr (same n))

/-- A later name is new if it is neither the first one nor one of those that
are taken. -/
theorem cons : Fresh taken (name :: names) ↔ name ∉ taken ∧ Fresh (name :: taken) names := by
  rw [Fresh, Fresh, List.nodup_cons, List.forall_mem_cons]
  simp only [List.mem_cons, not_or]
  constructor
  · rintro ⟨⟨here, distinct⟩, new, fresh⟩
    refine ⟨new, distinct, fun n hn => ⟨?_, fresh n hn⟩⟩
    rintro rfl
    exact here hn
  · rintro ⟨new, distinct, fresh⟩
    exact ⟨⟨fun h => (fresh name h).1 rfl, distinct⟩, new, fun n hn => (fresh n hn).2⟩

end Fresh

/-- Among different names, each finds its own element. -/
theorem find?_of_nodup {α : Type} {nameOf : α → String} {xs : List α} {x : α}
    (distinct : (xs.map nameOf).Nodup) (hx : x ∈ xs) :
    xs.find? (fun y => nameOf y = nameOf x) = some x := by
  obtain ⟨y, found⟩ := Option.isSome_iff_exists.1
    (List.find?_isSome (p := fun y => nameOf y = nameOf x).2 ⟨x, hx, decide_eq_true rfl⟩)
  have name : nameOf y = nameOf x := by simpa using List.find?_some found
  rw [found, List.inj_on_of_nodup_map distinct (List.mem_of_find?_eq_some found) hx name]

namespace QuerySchema

variable {all rest descriptors : List EntityDescriptor} {registry : ScalarRegistry}
variable {before built : List EntityType} {e : EntityType} {d : EntityDescriptor}
variable {entity name : String} {f : FieldDescriptor} {fs : List FieldDescriptor}
variable {field : SchemaField} {fields : List SchemaField} {s : QuerySchema}

/-- There is no repeated name exactly if all of them are new. -/
theorem repeatedName?_eq_none {seen : List String} :
    repeatedName? seen rest = none ↔ Fresh seen (rest.map (·.name)) := by
  induction rest generalizing seen with
  | nil => exact iff_of_true rfl (.nil seen)
  | cons d rest ih =>
    rw [repeatedName?, List.map_cons, Fresh.cons]
    by_cases again : d.name ∈ seen
    · rw [if_pos (List.contains_iff_mem.2 again)]
      exact iff_of_false (Option.some_ne_none _) fun h => h.1 again
    · rw [if_neg (mt List.contains_iff_mem.1 again), ih]
      exact (and_iff_right again).symm

/-! ### Fields -/

/-- A field is built exactly if its value class is bound, or its association
leads to an entity. -/
theorem exists_buildField :
    (∃ field, buildField all registry entity f = .ok field) ↔
      (∀ c, f.valueClass? = some c → ∃ b, registry.resolve c = some b) ∧
        ∀ target, f.target? = some target → ∃ d ∈ all, d.name = target := by
  -- Both kinds of association ask for their target alone.
  have leads : ∀ (target : String) (output : OutputType),
      (∃ field, (targetOf all entity f.name target).map (associationField f output) = .ok field) ↔
        ∃ d ∈ all, d.name = target := by
    intro target output
    simp only [targetOf]
    cases found : all.find? (·.name = target) with
    | none =>
      refine iff_of_false ?_ ?_
      · rintro ⟨field, h⟩
        cases h
      · rintro ⟨d, hd, same⟩
        exact List.find?_eq_none.1 found d hd (decide_eq_true same)
    | some d =>
      have name : d.name = target := by simpa using List.find?_some found
      exact iff_of_true ⟨_, rfl⟩ ⟨d, List.mem_of_find?_eq_some found, name⟩
  simp only [FieldDescriptor.valueClass?, FieldDescriptor.target?]
  unfold buildField
  cases f.kind with
  | scalar c =>
    cases resolved : registry.resolve c with
    | none => simp [resolved]
    | some b => simp [resolved]
  | toOne target joinColumn => simpa using leads target (.object target)
  | toMany target mappedBy => simpa using leads target (.list target)

/-- What a field says of its descriptor: a scalar field carries the binding of
its value class, and an association none. -/
structure Carries (registry : ScalarRegistry) (f : FieldDescriptor) (field : SchemaField) :
    Prop where
  descriptor : field.descriptor = f
  scalar : ∀ c, f.valueClass? = some c →
    ∃ b, registry.resolve c = some b ∧ field.binding = some b ∧ field.operators = b.operators
  association : ∀ target, f.target? = some target → field.binding = none

theorem carries_of_buildField (h : buildField all registry entity f = .ok field) :
    Carries registry f field := by
  -- The descriptor is of one kind, and of the others nothing is said.
  cases builtFrom_of_buildField h with
  | @scalar c b kind resolved =>
    refine ⟨rfl, fun c' class_ => ?_, fun target leads => ?_⟩
    · rw [FieldDescriptor.valueClass?, kind] at class_
      cases class_
      exact ⟨b, resolved, rfl, rfl⟩
    · rw [FieldDescriptor.target?, kind] at leads
      cases leads
  | toOne kind _ | toMany kind _ =>
    refine ⟨rfl, fun c class_ => ?_, fun target leads => rfl⟩
    rw [FieldDescriptor.valueClass?, kind] at class_
    cases class_

/-- A field that carries a binding is scalar. -/
theorem Carries.valueClass?_of_isSome (h : Carries registry f field)
    (scalar : field.binding.isSome) : ∃ c, f.valueClass? = some c := by
  cases kind : f.kind with
  | scalar c => exact ⟨c, by rw [FieldDescriptor.valueClass?, kind]⟩
  | toOne target joinColumn =>
    rw [h.association target (by rw [FieldDescriptor.target?, kind])] at scalar
    cases scalar
  | toMany target mappedBy =>
    rw [h.association target (by rw [FieldDescriptor.target?, kind])] at scalar
    cases scalar

theorem buildFields_cons (seen : List String) :
    buildFields all registry entity seen (f :: fs) =
      if f.name ∈ seen then .error (.duplicateField entity f.name)
      else buildField all registry entity f >>= fun field =>
        (buildFields all registry entity (f.name :: seen) fs).map (field :: ·) := by
  rw [buildFields]
  by_cases again : f.name ∈ seen
  · rw [if_pos again, if_pos (List.contains_iff_mem.2 again)]
    rfl
  · rw [if_neg again, if_neg (mt List.contains_iff_mem.1 again)]
    cases buildField all registry entity f with
    | error fault => rfl
    | ok field => cases buildFields all registry entity (f.name :: seen) fs <;> rfl

/-- Fields are built one by one if their names are different, and different
from those before. -/
theorem buildFields_eq_ok {seen : List String} :
    buildFields all registry entity seen fs = .ok fields ↔
      Fresh seen (fs.map (·.name)) ∧ fs.mapM (buildField all registry entity) = .ok fields := by
  induction fs generalizing seen fields with
  | nil => exact (and_iff_right (Fresh.nil seen)).symm
  | cons f fs ih =>
    rw [buildFields_cons, List.map_cons, Fresh.cons, List.mapM_cons]
    by_cases again : f.name ∈ seen
    · rw [if_pos again]
      exact iff_of_false (fun h => nomatch h) fun h => h.1.1 again
    · rw [if_neg again]
      simp only [Outcome.bind_eq_ok, Outcome.map_eq_ok, Outcome.pure_eq_ok, ih]
      constructor
      · rintro ⟨field, one, others, ⟨fresh, each⟩, rfl⟩
        exact ⟨⟨again, fresh⟩, field, one, others, each, rfl⟩
      · rintro ⟨⟨-, fresh⟩, field, one, others, each, rfl⟩
        exact ⟨field, one, others, ⟨fresh, each⟩, rfl⟩

/-- The fields of an entity are those of its descriptor, in order. -/
theorem descriptors_of_mapM (h : fs.mapM (buildField all registry entity) = .ok fields) :
    fields.map (·.descriptor) = fs := by
  have pairs := Outcome.mapM_eq_ok.1 h
  clear h
  induction pairs with
  | nil => rfl
  | cons one _ ih => rw [List.map_cons, (carries_of_buildField one).descriptor, ih]

/-! ### Entities -/

/-- Building an entity in steps: its fields are built, and the first one that
is named as the identifier is the identifier, if it is bound to a scalar. -/
theorem buildEntity_eq_ok :
    buildEntity all registry d = .ok e ↔
      ∃ idName, d.idField = some idName ∧
        ∃ fields, buildFields all registry d.name [] d.fields = .ok fields ∧
          ∃ idField, fields.find? (·.name = idName) = some idField ∧ idField.binding.isSome ∧
            ⟨d, d.rootName, criteriaTypeName d.rootName, fields, idField⟩ = e := by
  simp only [buildEntity]
  cases d.idField with
  | none =>
    refine iff_of_false (fun h => nomatch h) ?_
    rintro ⟨idName, h, -⟩
    cases h
  | some idName =>
    simp only [Option.some.injEq, exists_eq_left', Outcome.bind_eq_ok]
    refine exists_congr fun fields => and_congr_right fun _ => ?_
    cases fields.find? (·.name = idName) with
    | none =>
      refine iff_of_false (fun h => nomatch h) ?_
      rintro ⟨idField, h, -⟩
      cases h
    | some idField =>
      simp only [Option.some.injEq, exists_eq_left']
      cases idField.binding with
      | none => exact iff_of_false (fun h => nomatch h) fun h => nomatch h.1
      | some b => exact Outcome.pure_eq_ok.trans (and_iff_right rfl).symm

theorem rootName_of_buildEntity (h : buildEntity all registry d = .ok e) :
    e.rootName = d.rootName := by
  obtain ⟨idName, -, fields, -, idField, -, -, rfl⟩ := buildEntity_eq_ok.1 h
  rfl

/-- An entity is built exactly if it is sound. -/
theorem exists_buildEntity :
    (∃ e, buildEntity all registry d = .ok e) ↔ d.Sound all registry := by
  constructor
  · rintro ⟨e, h⟩
    obtain ⟨idName, named, fields, h, idField, found, scalar, -⟩ := buildEntity_eq_ok.1 h
    obtain ⟨fresh, each⟩ := buildFields_eq_ok.1 h
    have built : ∀ f ∈ d.fields, ∃ field, buildField all registry d.name f = .ok field :=
      Outcome.mapM_iff.1 ⟨fields, each⟩
    obtain ⟨f, hf, one⟩ := Outcome.exists_of_mem_mapM each (List.mem_of_find?_eq_some found)
    have carries := carries_of_buildField one
    refine ⟨Fresh.nil_left.1 fresh, fun f hf => (exists_buildField.1 (built f hf)).1,
      fun f hf => (exists_buildField.1 (built f hf)).2, f, hf, ?_, ?_⟩
    · have name : idField.name = idName := by simpa using List.find?_some found
      rw [named, ← name, ← carries.descriptor]
      rfl
    · exact carries.valueClass?_of_isSome scalar
  · rintro ⟨distinct, scalars, targets, f, hf, named, c, scalar⟩
    have built : ∀ f ∈ d.fields, ∃ field, buildField all registry d.name f = .ok field :=
      fun f hf => exists_buildField.2 ⟨scalars f hf, targets f hf⟩
    obtain ⟨fields, each⟩ := Outcome.mapM_iff.2 built
    have descriptors := descriptors_of_mapM each
    obtain ⟨field, hfield, rfl⟩ := List.mem_map.1 (descriptors ▸ hf)
    have alone : (fields.map (·.name)).Nodup := by
      rw [← descriptors, List.map_map] at distinct
      exact distinct
    -- The identifier is found among the fields that were built, under the name
    -- it has in its descriptor.
    obtain ⟨f, -, one⟩ := Outcome.exists_of_mem_mapM each hfield
    obtain ⟨same, carries, -⟩ := carries_of_buildField one
    obtain ⟨b, -, bound, -⟩ := carries c (same ▸ scalar)
    exact ⟨_, buildEntity_eq_ok.2 ⟨_, named, fields,
      buildFields_eq_ok.2 ⟨Fresh.nil_left.2 distinct, each⟩, field, find?_of_nodup alone hfield,
      Option.isSome_iff_exists.2 ⟨b, bound⟩, rfl⟩⟩

theorem buildEntities_cons :
    buildEntities all registry before (d :: rest) =
      buildEntity all registry d >>= fun e =>
        match before.find? (·.rootName = e.rootName) with
        | some first => .error (.rootNameCollision e.rootName first.name d.name)
        | none => buildEntities all registry (before ++ [e]) rest := by
  rfl

/-- Entities are built one by one if their root fields are different, and
different from those before. -/
theorem buildEntities_eq_ok :
    buildEntities all registry before rest = .ok built ↔
      Fresh (before.map (·.rootName)) (rest.map (·.rootName)) ∧
        ∃ more, rest.mapM (buildEntity all registry) = .ok more ∧ before ++ more = built := by
  induction rest generalizing before with
  | nil =>
    rw [List.map_nil, and_iff_right (Fresh.nil _)]
    simp [buildEntities]
  | cons d rest ih =>
    rw [buildEntities_cons, List.map_cons, Fresh.cons, List.mapM_cons]
    simp only [Outcome.bind_eq_ok, Outcome.pure_eq_ok]
    -- The names that are taken after this entity, and its own among them.
    have taken : ∀ e : EntityType, e.rootName = d.rootName →
        (Fresh ((before ++ [e]).map (·.rootName)) (rest.map (·.rootName)) ↔
          Fresh (d.rootName :: before.map (·.rootName)) (rest.map (·.rootName))) := by
      intro e root
      refine Fresh.congr fun n => ?_
      rw [List.map_append, List.map_singleton, root, List.mem_append, List.mem_singleton,
        List.mem_cons, or_comm]
    constructor
    · rintro ⟨e, one, h⟩
      have root : e.rootName = d.rootName := rootName_of_buildEntity one
      split at h
      · cases h
      · next new =>
        obtain ⟨fresh, more, each, same⟩ := ih.1 h
        refine ⟨⟨?_, (taken e root).1 fresh⟩, e :: more, ⟨e, one, more, each, rfl⟩, ?_⟩
        · intro again
          obtain ⟨first, hf, collision⟩ := List.mem_map.1 again
          exact List.find?_eq_none.1 new first hf (decide_eq_true (collision.trans root.symm))
        · rw [← same, List.append_cons]
    · rintro ⟨⟨new, fresh⟩, _, ⟨e, one, more, each, rfl⟩, same⟩
      have root : e.rootName = d.rootName := rootName_of_buildEntity one
      refine ⟨e, one, ?_⟩
      split
      · next first found =>
        have collision : first.rootName = e.rootName := by simpa using List.find?_some found
        refine absurd (List.mem_map.2 ⟨first, List.mem_of_find?_eq_some found, ?_⟩) new
        exact collision.trans root
      · exact ih.2 ⟨(taken e root).2 fresh, more, each, (List.append_cons ..).symm.trans same⟩

/-! ### Schemas -/

/-- Building a schema: there are entities, no name is repeated, and each
entity is built. -/
theorem build_eq_ok_iff :
    build name all registry = .ok s ↔
      all ≠ [] ∧ repeatedName? [] all = none ∧
        ∃ entities, buildEntities all registry [] all = .ok entities ∧
          ⟨name, entities, registry⟩ = s := by
  rw [build]
  cases all with
  | nil => exact iff_of_false (fun h => nomatch h) fun h => h.1 rfl
  | cons d rest =>
    rw [and_iff_right (List.cons_ne_nil d rest), List.isEmpty_cons, if_neg Bool.false_ne_true]
    cases repeatedName? [] (d :: rest) with
    | some repeated => exact iff_of_false (fun h => nomatch h) fun h => nomatch h.1
    | none =>
      rw [and_iff_right rfl]
      exact Outcome.bind_eq_ok.trans (exists_congr fun _ => and_congr_right fun _ =>
        Outcome.pure_eq_ok)

/-- A schema is built exactly of sound entities. -/
theorem exists_build :
    (∃ s, build name all registry = .ok s) ↔ EntityDescriptor.AllSound registry all := by
  constructor
  · rintro ⟨s, h⟩
    obtain ⟨some, names, entities, h, -⟩ := build_eq_ok_iff.1 h
    obtain ⟨roots, more, each, -⟩ := buildEntities_eq_ok.1 h
    exact ⟨some, Fresh.nil_left.1 (repeatedName?_eq_none.1 names), Fresh.nil_left.1 roots,
      fun d hd => exists_buildEntity.1 (Outcome.mapM_iff.1 ⟨more, each⟩ d hd)⟩
  · rintro ⟨some, names, roots, each⟩
    obtain ⟨more, each⟩ := Outcome.mapM_iff.2 fun d hd => exists_buildEntity.2 (each d hd)
    exact ⟨_, build_eq_ok_iff.2 ⟨some, repeatedName?_eq_none.2 (Fresh.nil_left.2 names), more,
      buildEntities_eq_ok.2 ⟨Fresh.nil_left.2 roots, more, each, rfl⟩, rfl⟩⟩

/-- Built entities carry the descriptors that they were built from, in order.
-/
theorem descriptors_of_entities (h : rest.mapM (buildEntity all registry) = .ok built) :
    built.map (·.descriptor) = rest := by
  have pairs := Outcome.mapM_eq_ok.1 h
  clear h
  induction pairs with
  | nil => rfl
  | cons one _ ih => rw [List.map_cons, (descriptor_of_buildEntity one).1, ih]

/-- The entities of a schema are those of its descriptors, in order. -/
theorem descriptors_of_build (h : build name all registry = .ok s) :
    s.entities.map (·.descriptor) = all := by
  obtain ⟨-, more, each, same⟩ := buildEntities_eq_ok.1 (build_eq_ok h)
  rw [← same]
  exact descriptors_of_entities each

theorem field_of_build (h : build name all registry = .ok s) :
    ∀ e ∈ s.entities, ∀ field ∈ e.fields, ∃ f entity,
      buildField all registry entity f = .ok field :=
  forall_of_build h fun _ _ one field hf =>
    (mem_of_buildFields (descriptor_of_buildEntity one).2.1 field hf).imp fun _ built => ⟨_, built⟩

/-- The identifier is the declared one, and is scalar. -/
theorem identifier_of_buildEntity (h : buildEntity all registry d = .ok e) :
    e.descriptor.idField = some e.idField.name ∧
      ∃ c, e.idField.descriptor.valueClass? = some c := by
  obtain ⟨idName, named, fields, made, idField, found, scalar, rfl⟩ := buildEntity_eq_ok.1 h
  have name : idField.name = idName := by simpa using List.find?_some found
  obtain ⟨f, built⟩ := mem_of_buildFields made idField (List.mem_of_find?_eq_some found)
  have carries := carries_of_buildField built
  refine ⟨named.trans (congrArg some name.symm), ?_⟩
  show ∃ c, idField.descriptor.valueClass? = some c
  rw [carries.descriptor]
  exact carries.valueClass?_of_isSome scalar

section Lookup

variable (h : build name all registry = .ok s)

include h

theorem rootName_of_build : ∀ e ∈ s.entities, e.rootName = e.descriptor.rootName :=
  forall_of_build h fun _ _ one => by
    rw [rootName_of_buildEntity one, (descriptor_of_buildEntity one).1]

theorem mem_descriptors (he : e ∈ s.entities) : e.descriptor ∈ all :=
  descriptors_of_build h ▸ List.mem_map_of_mem he

/-- The entities have different names. -/
theorem nodup_entityNames : (s.entities.map (·.name)).Nodup := by
  have names := (exists_build.1 ⟨s, h⟩).names
  rwa [← descriptors_of_build h, List.map_map] at names

/-- The entities have different root fields. -/
theorem nodup_rootNames : s.rootNames.Nodup := by
  have roots := (exists_build.1 ⟨s, h⟩).roots
  rw [← descriptors_of_build h, List.map_map] at roots
  rw [rootNames, List.map_congr_left (rootName_of_build h)]
  exact roots

/-- An entity is found under its name. -/
theorem entity?_of_build (he : e ∈ s.entities) : s.entity? e.descriptor.name = some e :=
  find?_of_nodup (nodup_entityNames h) he

/-- An entity is found under its root field. -/
theorem root?_of_build (he : e ∈ s.entities) : s.root? e.descriptor.rootName = some e := by
  rw [← rootName_of_build h e he]
  exact find?_of_nodup (nodup_rootNames h) he

/-- A schema that was built is closed. -/
theorem closed_of_build : s.Closed all registry where
  descriptors := descriptors_of_build h
  entity _ he := entity?_of_build h he
  root _ he := root?_of_build h he
  noEntity n none := List.find?_eq_none.2 fun e he found =>
    none e.descriptor (mem_descriptors h he) (of_decide_eq_true found)
  noRoot n none := by
    refine List.find?_eq_none.2 fun e he found => none e.descriptor (mem_descriptors h he) ?_
    rw [← rootName_of_build h e he]
    exact of_decide_eq_true found
  fields := forall_of_build h fun d e one => by
    obtain ⟨same, made, -⟩ := descriptor_of_buildEntity one
    rw [same]
    exact descriptors_of_mapM (buildFields_eq_ok.1 made).2
  identifier e he :=
    ⟨identified_of_build h e he, forall_of_build h (fun _ _ => identifier_of_buildEntity) e he⟩
  targets e he f hf target leads := by
    obtain ⟨g, entity, built⟩ := field_of_build h e he f hf
    have carries := carries_of_buildField built
    rw [carries.descriptor] at leads
    obtain ⟨d, hd, rfl⟩ := (exists_buildField.1 ⟨f, built⟩).2 target leads
    obtain ⟨t, ht, rfl⟩ := exists_of_build h d hd
    exact ⟨carries.association _ leads, t, ht, rfl, entity?_of_build h ht⟩
  scalars e he f hf c scalar := by
    obtain ⟨g, entity, built⟩ := field_of_build h e he f hf
    have carries := carries_of_buildField built
    rw [carries.descriptor] at scalar
    exact carries.scalar c scalar

/-- Fields of an entity have different names. -/
theorem nodup_fields_of_build (he : e ∈ s.entities) : (e.fields.map (·.name)).Nodup := by
  have names := ((exists_build.1 ⟨s, h⟩).each _ (mem_descriptors h he)).names
  rwa [← (closed_of_build h).fields e he, List.map_map] at names

/-- A field is found under its name. -/
theorem field?_of_build (he : e ∈ s.entities) (hf : field ∈ e.fields) :
    e.field? field.name = some field :=
  find?_of_nodup (nodup_fields_of_build h he) hf

end Lookup

/-- **Exactly sound models make a schema, and the schema is closed.** -/
theorem build_iff_sound (name : String) (all : List EntityDescriptor)
    (registry : ScalarRegistry) :
    ((∃ s, build name all registry = .ok s) ↔ EntityDescriptor.AllSound registry all) ∧
      ∀ s, build name all registry = .ok s → s.Closed all registry :=
  ⟨exists_build, fun _ h => closed_of_build h⟩

end QuerySchema

/-- The library makes a schema, so its model is sound: authors and books go by
different names and root fields, and each association leads to the other
entity. -/
theorem build_iff_sound_library :
    EntityDescriptor.AllSound Sample.registry [Sample.author, Sample.book] ∧
      Sample.schema.Closed [Sample.author, Sample.book] Sample.registry := by
  have sound := QuerySchema.build_iff_sound "library" [Sample.author, Sample.book] Sample.registry
  exact ⟨sound.1.1 ⟨Sample.schema, Sample.schema_built⟩, sound.2 _ Sample.schema_built⟩

end EntityQuery
