/-
EntityQuery/Catalog/Entity.lean

Entities: how the types that queries speak of lie in tables.

A field is a column of its own, or an association.  A to-one association
holds the identifier of its target in a column of this table; a to-many
association is held by a column of the target's table.
-/
import EntityQuery.Catalog.Naming

namespace EntityQuery

/-- What a field is. -/
inductive FieldKind where
  | scalar (valueClass : String)
  | toOne (target joinColumn : String)
  | toMany (target mappedBy : String)
deriving DecidableEq, Repr

/-- A field with its column, which for an association is the column that
holds the association. -/
structure FieldDescriptor where
  name : String
  column : String
  kind : FieldKind
deriving DecidableEq, Repr

namespace FieldDescriptor

/-- The class of the values of a scalar field. -/
def valueClass? (f : FieldDescriptor) : Option String :=
  match f.kind with
  | .scalar valueClass => some valueClass
  | _ => none

/-- The entity an association leads to. -/
def target? (f : FieldDescriptor) : Option String :=
  match f.kind with
  | .scalar _ => none
  | .toOne target _ => some target
  | .toMany target _ => some target

/-- Whether the field is an association. -/
def isAssociation (f : FieldDescriptor) : Bool := f.target?.isSome

end FieldDescriptor

/-- An entity: its table and its fields in order.  The plural names its root
field; without one, the plural of its name does. -/
structure EntityDescriptor where
  name : String
  plural : Option String
  database : Option String
  table : String
  idField : Option String
  fields : List FieldDescriptor
deriving DecidableEq, Repr

namespace EntityDescriptor

/-- An entity without fields. -/
def ofTable (name table : String) : EntityDescriptor := ⟨name, none, none, table, none, []⟩

/-- One more field. -/
def addField (e : EntityDescriptor) (f : FieldDescriptor) : EntityDescriptor :=
  { e with fields := e.fields ++ [f] }

/-- One more scalar field, in a given column. -/
def addScalarIn (e : EntityDescriptor) (name valueClass column : String) : EntityDescriptor :=
  e.addField ⟨name, column, .scalar valueClass⟩

/-- One more scalar field, in the column of its name. -/
def addScalar (e : EntityDescriptor) (name valueClass : String) : EntityDescriptor :=
  e.addScalarIn name valueClass (Naming.snakeCase name)

/-- One more scalar field, which is the identifier. -/
def addId (e : EntityDescriptor) (name valueClass : String) : EntityDescriptor :=
  { e with idField := some name }.addScalar name valueClass

/-- One more association to a single entity. -/
def addToOne (e : EntityDescriptor) (name target joinColumn : String) : EntityDescriptor :=
  e.addField ⟨name, joinColumn, .toOne target joinColumn⟩

/-- One more association to any number of entities. -/
def addToMany (e : EntityDescriptor) (name target mappedBy : String) : EntityDescriptor :=
  e.addField ⟨name, mappedBy, .toMany target mappedBy⟩

/-- The first field of a name. -/
def field? (e : EntityDescriptor) (name : String) : Option FieldDescriptor :=
  e.fields.find? (·.name = name)

/-- The field that identifies the entity. -/
def idDescriptor? (e : EntityDescriptor) : Option FieldDescriptor := e.idField.bind e.field?

/-- The root field of the entity. -/
def rootName (e : EntityDescriptor) : String := e.plural.getD (Naming.pluralize e.name)

/-- The table with its database, if it has one. -/
def qualifiedTable (e : EntityDescriptor) : String :=
  match e.database with
  | some database => if database.isEmpty then e.table else database ++ "." ++ e.table
  | none => e.table

end EntityDescriptor

end EntityQuery
