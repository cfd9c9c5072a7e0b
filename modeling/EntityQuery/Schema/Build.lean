/-
EntityQuery/Schema/Build.lean

Building a schema from the entities of a model and a registry of scalars.

Entities and then their fields are taken in order, and the first fault is
reported: an entity without an identifier, a field named twice, a value
class that is bound to nothing, an association that leads nowhere, an
identifier that is missing or no scalar, two entities with one root field.
-/
import EntityQuery.Schema.Basic

namespace EntityQuery

/-- Why entities make no schema. -/
inductive SchemaError where
  | emptySchema
  | duplicateEntity (name : String)
  | missingIdentifier (entity : String)
  | duplicateField (entity field : String)
  | unresolvedScalar (entity field valueClass : String)
  | unknownTarget (entity field target : String)
  | nonScalarIdentifier (entity field : String)
  | rootNameCollision (root first second : String)
deriving DecidableEq, Repr

/-- The wording of an error. -/
def SchemaError.message : SchemaError → String
  | .emptySchema => "Schema contains no entities"
  | .duplicateEntity name => "Entity '" ++ name ++ "' is declared more than once"
  | .missingIdentifier entity => "Entity '" ++ entity ++ "' has no identifier field"
  | .duplicateField entity field =>
    "Field '" ++ field ++ "' is declared more than once on entity '" ++ entity ++ "'"
  | .unresolvedScalar entity field valueClass =>
    "Field '" ++ entity ++ "." ++ field ++ "' has type '" ++ valueClass ++
      "' with no registered scalar binding"
  | .unknownTarget entity field target =>
    "Association '" ++ entity ++ "." ++ field ++ "' targets unknown entity '" ++ target ++ "'"
  | .nonScalarIdentifier entity field =>
    "Identifier '" ++ field ++ "' of entity '" ++ entity ++ "' must be a scalar field"
  | .rootNameCollision root first second =>
    "Root field '" ++ root ++ "' is produced by both '" ++ first ++ "' and '" ++ second ++ "'"

/-- The name of the criteria of an entity. -/
def criteriaTypeName (rootName : String) : String := rootName ++ "CriteriaExpression"

/-- The name of the criteria of a scalar. -/
def scalarCriteriaName (scalar : String) : String := scalar ++ "Criteria"

namespace QuerySchema

/-! ### Fields -/

/-- A field that is bound to a scalar. -/
def scalarField (f : FieldDescriptor) (b : ScalarBinding) : SchemaField :=
  ⟨f, some b, .scalar b.name, .scalar (scalarCriteriaName b.name) b.operators⟩

/-- A field that leads to an entity. -/
def associationField (f : FieldDescriptor) (output : OutputType) (target : EntityDescriptor) :
    SchemaField :=
  ⟨f, none, output, .association (criteriaTypeName target.rootName)⟩

/-- The entity an association leads to. -/
def targetOf (all : List EntityDescriptor) (entity field target : String) :
    Except SchemaError EntityDescriptor :=
  match all.find? (·.name = target) with
  | some e => .ok e
  | none => .error (.unknownTarget entity field target)

/-- The schema field of a field. -/
def buildField (all : List EntityDescriptor) (registry : ScalarRegistry) (entity : String)
    (f : FieldDescriptor) : Except SchemaError SchemaField :=
  match f.kind with
  | .scalar valueClass =>
    match registry.resolve valueClass with
    | some b => .ok (scalarField f b)
    | none => .error (.unresolvedScalar entity f.name valueClass)
  | .toOne target _ => (targetOf all entity f.name target).map (associationField f (.object target))
  | .toMany target _ => (targetOf all entity f.name target).map (associationField f (.list target))

/-- The schema fields of the fields of an entity, given the names of those
before. -/
def buildFields (all : List EntityDescriptor) (registry : ScalarRegistry) (entity : String)
    (seen : List String) : List FieldDescriptor → Except SchemaError (List SchemaField)
  | [] => .ok []
  | f :: rest => do
    if seen.contains f.name then throw (.duplicateField entity f.name)
    let field ← buildField all registry entity f
    return field :: (← buildFields all registry entity (f.name :: seen) rest)

/-! ### Entities -/

/-- The schema entity of an entity. -/
def buildEntity (all : List EntityDescriptor) (registry : ScalarRegistry)
    (e : EntityDescriptor) : Except SchemaError EntityType := do
  let some idName := e.idField | throw (.missingIdentifier e.name)
  let fields ← buildFields all registry e.name [] e.fields
  let some idField := fields.find? (·.name = idName) | throw (.missingIdentifier e.name)
  if idField.binding.isNone then throw (.nonScalarIdentifier e.name idName)
  return ⟨e, e.rootName, criteriaTypeName e.rootName, fields, idField⟩

/-- The schema entities of entities, after those already built. -/
def buildEntities (all : List EntityDescriptor) (registry : ScalarRegistry)
    (built : List EntityType) : List EntityDescriptor → Except SchemaError (List EntityType)
  | [] => .ok built
  | e :: rest => do
    let entity ← buildEntity all registry e
    match built.find? (·.rootName = entity.rootName) with
    | some first => throw (.rootNameCollision entity.rootName first.name e.name)
    | none => buildEntities all registry (built ++ [entity]) rest

/-- The first entity name that stands before in the list. -/
def repeatedName? (seen : List String) : List EntityDescriptor → Option String
  | [] => none
  | e :: rest => if seen.contains e.name then some e.name else repeatedName? (e.name :: seen) rest

/-- The schema of a list of entities. -/
def build (name : String) (entities : List EntityDescriptor) (registry : ScalarRegistry) :
    Except SchemaError QuerySchema := do
  if entities.isEmpty then throw .emptySchema
  if let some repeated := repeatedName? [] entities then throw (.duplicateEntity repeated)
  return ⟨name, ← buildEntities entities registry [] entities, registry⟩

end QuerySchema

end EntityQuery
