/-
EntityQuery/Catalog/Model.lean

The entity model as it is configured, and the entities it describes.

A model may be given in any notation (`Notated`).  A model that has been
read is checked for what can be seen without knowing the scalars
(`EntityModel.validate`) before it is turned into entities.
-/
import EntityQuery.Catalog.Entity
import EntityQuery.Notated
import EntityQuery.Yaml.Read

namespace EntityQuery

/-! ### Models -/

/-- A field of a configured entity. -/
structure FieldDefinition where
  name : String
  valueClass : String
  column : Option String
deriving DecidableEq, Repr

/-- The number of entities an association leads to. -/
inductive AssociationKind where
  | one
  | many
deriving DecidableEq, Repr

/-- An association of a configured entity. -/
structure AssociationDefinition where
  name : String
  target : String
  kind : AssociationKind
  joinColumn : Option String
  mappedBy : Option String
deriving DecidableEq, Repr

/-- A configured entity. -/
structure EntityDefinition where
  name : String
  plural : Option String
  database : Option String
  table : String
  id : Option String
  fields : List FieldDefinition
  associations : List AssociationDefinition
deriving DecidableEq, Repr

/-- A configured model, with the database of entities that name none. -/
structure EntityModel where
  database : Option String
  entities : List EntityDefinition
deriving DecidableEq, Repr

/-- Why a model cannot be used. -/
inductive EntityModelError where
  | unreadable
  | malformed
  | empty
  | duplicateEntity (name : String)
  | missingColumn (entity association : String) (kind : AssociationKind)
deriving DecidableEq, Repr

namespace AssociationKind

/-- The member that an association of this kind must have. -/
def columnMember : AssociationKind → String
  | .one => "join_column"
  | .many => "mapped_by"

/-- The kind of a word. -/
def ofWord? (word : String) : Option AssociationKind :=
  if word = "one" then some .one else if word = "many" then some .many else none

end AssociationKind

/-- The wording of an error; one in reading has none of its own. -/
def EntityModelError.message : EntityModelError → String
  | .unreadable => "Failed to read entity model file"
  | .malformed => "Failed to parse entity model"
  | .empty => "Invalid entity model: Entity model must contain at least one entity"
  | .duplicateEntity name => "Invalid entity model: Duplicate entity name: " ++ name
  | .missingColumn entity association kind =>
    "Invalid entity model: association '" ++ association ++ "' requires '" ++ kind.columnMember ++
      "'\n  Context: entity '" ++ entity ++ "'"

/-- The column that holds an association. -/
def AssociationDefinition.column? (a : AssociationDefinition) : Option String :=
  match a.kind with
  | .one => a.joinColumn
  | .many => a.mappedBy

namespace EntityModel

/-! ### Reading -/

section

open Notated

variable {α : Type} [Notated α]

/-- A field definition. -/
def readField (value : α) : Option FieldDefinition := do
  let members ← record? ["name", "type", "column"] value
  let name ← textMember members "name"
  let valueClass ← textMember members "type"
  let column ← optionalMember members "column"
  return ⟨name, valueClass, column⟩

/-- An association definition. -/
def readAssociation (value : α) : Option AssociationDefinition := do
  let members ← record? ["name", "target", "kind", "join_column", "mapped_by"] value
  let name ← textMember members "name"
  let target ← textMember members "target"
  let kind ← ((members.lookup "kind").bind word?).bind AssociationKind.ofWord?
  let joinColumn ← optionalMember members "join_column"
  let mappedBy ← optionalMember members "mapped_by"
  return ⟨name, target, kind, joinColumn, mappedBy⟩

/-- An entity definition. -/
def readEntity (value : α) : Option EntityDefinition := do
  let members ←
    record? ["name", "plural", "database", "table", "id", "fields", "associations"] value
  let name ← textMember members "name"
  let plural ← optionalMember members "plural"
  let database ← optionalMember members "database"
  let table ← textMember members "table"
  let id ← optionalMember members "id"
  let fields ← listMember readField members "fields"
  let associations ← listMember readAssociation members "associations"
  return ⟨name, plural, database, table, id, fields, associations⟩

/-- A model. -/
def ofNotation? (value : α) : Option EntityModel := do
  let members ← record? ["database", "entities"] value
  let database ← optionalMember members "database"
  let items ← (members.lookup "entities").bind list?
  let entities ← items.mapM readEntity
  return ⟨database, entities⟩

end

/-! ### Checking and use -/

/-- The first association of an entity without its column. -/
def missingColumn? (e : EntityDefinition) : Option EntityModelError :=
  (e.associations.find? fun a => a.column?.isNone).map fun a => .missingColumn e.name a.name a.kind

/-- The first fault among entities, given the names that came before. -/
def fault? (seen : List String) : List EntityDefinition → Option EntityModelError
  | [] => none
  | e :: rest =>
    if seen.contains e.name then some (.duplicateEntity e.name)
    else (missingColumn? e).or (fault? (e.name :: seen) rest)

/-- Refuse a model without entities, with two of a name, or with an
association that lacks its column. -/
def validate (m : EntityModel) : Except EntityModelError Unit :=
  if m.entities.isEmpty then .error .empty
  else
    match fault? [] m.entities with
    | some fault => .error fault
    | none => .ok ()

/-- Add a configured field. -/
def addField (e : EntityDescriptor) (f : FieldDefinition) : EntityDescriptor :=
  e.addScalarIn f.name f.valueClass (f.column.getD (Naming.snakeCase f.name))

/-- Add a configured association. -/
def addAssociation (e : EntityDescriptor) (a : AssociationDefinition) : EntityDescriptor :=
  match a.kind, a.joinColumn, a.mappedBy with
  | .one, some column, _ => e.addToOne a.name a.target column
  | .many, _, some column => e.addToMany a.name a.target column
  | _, _, _ => e

/-- The entity that a definition describes. -/
def describe (m : EntityModel) (e : EntityDefinition) : EntityDescriptor :=
  let bare : EntityDescriptor := ⟨e.name, e.plural, e.database.or m.database, e.table, e.id, []⟩
  e.associations.foldl addAssociation (e.fields.foldl addField bare)

/-- The entities of a model. -/
def toDescriptors (m : EntityModel) : Except EntityModelError (List EntityDescriptor) := do
  m.validate
  return m.entities.map m.describe

/-- The entities of a model in some notation. -/
def readDescriptors {α : Type} [Notated α] (value : α) :
    Except EntityModelError (List EntityDescriptor) :=
  match ofNotation? value with
  | some m => m.toDescriptors
  | none => .error .malformed

/-- The entities of a model in YAML text. -/
def readText (text : String) : Except EntityModelError (List EntityDescriptor) :=
  match Yaml.read? text with
  | some value => readDescriptors value
  | none => .error .malformed

end EntityModel

end EntityQuery
