/-
EntityQuery/Schema/Basic.lean

The schema that queries are planned against: entities with their root fields
and the scalar bound to each field.
-/
import EntityQuery.Catalog.Entity
import EntityQuery.Scalar.Binding

namespace EntityQuery

/-- The type of a field in answers. -/
inductive OutputType where
  | scalar (name : String)
  | object (entity : String)
  | list (entity : String)
deriving DecidableEq, Repr

/-- What a field can be filtered by: the operators of its scalar, or the
criteria of the entity it leads to. -/
inductive CriteriaType where
  | scalar (name : String) (operators : List FilterOperator)
  | association (name : String)
deriving DecidableEq, Repr

/-- The name of a criteria type. -/
def CriteriaType.name : CriteriaType → String
  | .scalar name _ => name
  | .association name => name

/-- A field with the scalar it is bound to; associations have none. -/
structure SchemaField where
  descriptor : FieldDescriptor
  binding : Option ScalarBinding
  output : OutputType
  criteria : CriteriaType
deriving Repr

namespace SchemaField

/-- The name of the field. -/
def name (f : SchemaField) : String := f.descriptor.name

/-- The operators of the field, none for an association. -/
def operators (f : SchemaField) : List FilterOperator :=
  match f.criteria with
  | .scalar _ operators => operators
  | .association _ => []

end SchemaField

/-- An entity that can be queried, with its identifier. -/
structure EntityType where
  descriptor : EntityDescriptor
  rootName : String
  criteriaName : String
  fields : List SchemaField
  idField : SchemaField
deriving Repr

namespace EntityType

/-- The name of the entity. -/
def name (e : EntityType) : String := e.descriptor.name

/-- The first field of a name. -/
def field? (e : EntityType) (name : String) : Option SchemaField :=
  e.fields.find? (·.name = name)

/-- The fields that are columns of their own. -/
def scalarFields (e : EntityType) : List SchemaField :=
  e.fields.filter fun f => f.descriptor.valueClass?.isSome

/-- The column of the identifier. -/
def idColumn (e : EntityType) : String := e.idField.descriptor.column

end EntityType

/-- The entities that can be queried, and the scalars they use. -/
structure QuerySchema where
  name : String
  entities : List EntityType
  registry : ScalarRegistry
deriving Repr

namespace QuerySchema

/-- The entity of a name. -/
def entity? (s : QuerySchema) (name : String) : Option EntityType :=
  s.entities.find? (·.name = name)

/-- The entity of a root field. -/
def root? (s : QuerySchema) (rootName : String) : Option EntityType :=
  s.entities.find? (·.rootName = rootName)

/-- The root fields in order. -/
def rootNames (s : QuerySchema) : List String := s.entities.map (·.rootName)

end QuerySchema

end EntityQuery
