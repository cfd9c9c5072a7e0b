/-
EntityQuery/Planning/Selection.lean

From requested fields to the columns of a query.

Every requested entity gets a node in a tree that mirrors the request.  The
identifier of each node is a column of the query even when it is not asked
for, since it tells the rows of different objects apart.  A column is called
by its field, after the associations that lead to it.
-/
import EntityQuery.Document.Basic
import EntityQuery.Planning.Draft

namespace EntityQuery

/-- How many objects an association answers with. -/
inductive Cardinality where
  | one
  | many
deriving DecidableEq, Repr

mutual

/-- The requested fields of one entity. -/
inductive SelectionNode where
  | mk (entity : String) (path : List String) (tableAlias : String) (idColumn : String)
      (fields : List SelectedField)

/-- A requested field: a column, or the objects of an association. -/
inductive SelectedField where
  | scalar (responseKey column : String) (binding : ScalarBinding)
  | association (responseKey : String) (cardinality : Cardinality) (node : SelectionNode)

end

namespace SelectionNode

/-- The entity of the node. -/
def entity : SelectionNode → String
  | .mk e _ _ _ _ => e

/-- The associations that lead to the node. -/
def path : SelectionNode → List String
  | .mk _ p _ _ _ => p

/-- The alias of the table of the node. -/
def tableAlias : SelectionNode → String
  | .mk _ _ a _ _ => a

/-- The column that identifies the objects of the node. -/
def idColumn : SelectionNode → String
  | .mk _ _ _ i _ => i

/-- The requested fields. -/
def fields : SelectionNode → List SelectedField
  | .mk _ _ _ _ fs => fs

end SelectionNode

/-- What is requested of a root field. -/
structure RootSelection where
  rootName : String
  responseKey : String
  selectKey : String
  node : SelectionNode

namespace Selection

/-- The field of a root that holds the requested objects. -/
def selectField : String := "select"

/-- The argument that orders by a field. -/
def orderArgument : String := "orderBy"

/-- The name of the column of a field. -/
def columnName (path : List String) (field : String) : String :=
  if path.isEmpty then field else ".".intercalate path ++ "." ++ field

/-! ### Order -/

/-- The direction that a word stands for. -/
def directionOf (field : String) (word : Option String) : Except PlanError Direction :=
  match word with
  | some "ASC" => .ok .ascending
  | some "DESC" => .ok .descending
  | _ => .error (.invalidValue field (orderArgument ++ " expects ASC or DESC"))

/-- The direction of an order argument: a word, a string, or a variable with
a string. -/
def direction (vars : Variables) (field : String) : Document.Value → Except PlanError Direction
  | .enum word => directionOf field (some word)
  | .string word => directionOf field (some word)
  | .variable name => do
    match Keyed.find? vars name with
    | some (.string word) => directionOf field (some word)
    | some _ => directionOf field none
    | none => throw (.unboundVariable name)
  | _ => directionOf field none

/-- Order by the arguments of a scalar field. -/
def orderArguments (vars : Variables) (field : String) (column : Expr) :
    List (String × Document.Value) → Planner Unit
  | [] => return ()
  | (argument, value) :: rest => do
    if argument ≠ orderArgument then throw (.unknownArgument field argument)
    let given ← direction vars field value
    Planner.orderBy column given
    orderArguments vars field column rest

/-! ### Nodes -/

/-- The cardinality of an association. -/
def cardinality (f : FieldDescriptor) : Cardinality :=
  match f.kind with
  | .toMany _ _ => .many
  | _ => .one

/-- Plan a requested scalar field. -/
def planScalar (vars : Variables) (entity : EntityType) (tableAlias : String)
    (path : List String) (field : SchemaField) (b : ScalarBinding) (requested : Document.Field) :
    Planner SelectedField := do
  unless requested.selection.isEmpty do
    throw (.invalidSelection ("scalar field '" ++ entity.name ++ "." ++ requested.name ++
      "' cannot have a sub-selection"))
  let column : Expr := .column tableAlias field.descriptor.column
  let name := columnName path requested.name
  Planner.project column name
  orderArguments vars requested.name column requested.arguments
  return .scalar requested.responseKey name b

/-- Refuse a requested association with arguments or without a selection. -/
def checkAssociation (entity : EntityType) (requested : Document.Field) : Except PlanError Unit :=
  match requested.arguments with
  | (argument, _) :: _ => .error (.unknownArgument requested.name argument)
  | [] =>
    if requested.selection.isEmpty then
      .error (.invalidSelection ("association '" ++ entity.name ++ "." ++ requested.name ++
        "' needs a selection of fields"))
    else .ok ()

/-- Ask for the identifier of an entity; the name of its column comes
back. -/
def projectId (entity : EntityType) (tableAlias : String) (path : List String) :
    Planner String := do
  let name := columnName path entity.idField.name
  Planner.project (.column tableAlias entity.idColumn) name
  return name

mutual

/-- Plan one requested field of an entity. -/
def planField (schema : QuerySchema) (vars : Variables) (entity : EntityType)
    (tableAlias : String) (path : List String) : Document.Field → Planner SelectedField
  | .mk label name arguments selection => do
    let requested : Document.Field := .mk label name arguments selection
    let some field := entity.field? name | throw (.unknownField entity.name name)
    match field.binding with
    | some b => planScalar vars entity tableAlias path field b requested
    | none => do
      checkAssociation entity requested
      let below := path ++ [name]
      let (next, target) ← Planner.join schema entity tableAlias below field
      let fields ← planFields schema vars target next below selection
      let id ← projectId target next below
      return .association requested.responseKey (cardinality field.descriptor)
        (.mk target.name below next id fields)

/-- Plan requested fields in order. -/
def planFields (schema : QuerySchema) (vars : Variables) (entity : EntityType)
    (tableAlias : String) (path : List String) : List Document.Field → Planner (List SelectedField)
  | [] => return []
  | f :: fs => do
    let g ← planField schema vars entity tableAlias path f
    let gs ← planFields schema vars entity tableAlias path fs
    return g :: gs

end

/-- Plan the requested fields of an entity, and its identifier after them. -/
def planNode (schema : QuerySchema) (vars : Variables) (entity : EntityType)
    (tableAlias : String) (path : List String) (requested : List Document.Field) :
    Planner SelectionNode := do
  let fields ← planFields schema vars entity tableAlias path requested
  let id ← projectId entity tableAlias path
  return .mk entity.name path tableAlias id fields

/-! ### Roots -/

/-- The one field that a root has, given what was found before. -/
def findSelect (rootName : String) (found : Option Document.Field) :
    List Document.Field → Except PlanError (Option Document.Field)
  | [] => .ok found
  | f :: rest =>
    if f.name ≠ selectField then .error (.unknownField rootName f.name)
    else if found.isSome then
      .error (.invalidSelection ("'" ++ rootName ++ "' may select '" ++ selectField ++
        "' only once"))
    else findSelect rootName (some f) rest

/-- Plan what is requested of a root field. -/
def planRoot (schema : QuerySchema) (vars : Variables) (entity : EntityType)
    (root : Document.Field) : Planner RootSelection := do
  let found ← findSelect entity.rootName none root.selection
  let some select := found
    | throw (.invalidSelection ("'" ++ entity.rootName ++ "' must select '" ++ selectField ++ "'"))
  if select.selection.isEmpty then
    throw (.invalidSelection ("'" ++ entity.rootName ++ "." ++ selectField ++
      "' needs a selection of fields"))
  let node ← planNode schema vars entity rootAlias [] select.selection
  return ⟨entity.rootName, root.responseKey, select.responseKey, node⟩

end Selection

end EntityQuery
