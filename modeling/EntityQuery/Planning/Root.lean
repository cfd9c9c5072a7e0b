/-
EntityQuery/Planning/Root.lean

Planning a root field: its selection, its filter, and the query for both.
-/
import EntityQuery.Planning.Predicate
import EntityQuery.Planning.Selection

namespace EntityQuery

/-- A planned root field. -/
structure RootPlan where
  selection : RootSelection
  filter : Option Filter
  query : Query

namespace Planning

/-- The argument that restricts the rows of a root. -/
def whereArgument : String := "where"

/-! ### Variables -/

/-- The value of a default; one that is no constant has none. -/
def defaultOf? (definition : Document.VariableDefinition) : Option Json :=
  definition.default.bind fun value => ((Operand.ofValue value).resolve []).toOption

/-- The supplied variables, and the defaults of those not supplied. -/
def bindVariables (definitions : List Document.VariableDefinition) (supplied : Variables) :
    Variables :=
  definitions.foldl
    (fun bound definition =>
      if Keyed.contains bound definition.name then bound
      else
        match defaultOf? definition with
        | some value => Keyed.put definition.name value bound
        | none => bound) supplied

/-! ### Root fields -/

/-- The filter of a root field; no argument and a literal null restrict
nothing. -/
def filterOf (vars : Variables) (field : Document.Field) :
    Except PlanError (Option Filter) :=
  match field.argument? whereArgument with
  | none => .ok none
  | some .null => .ok none
  | some value => Criteria.read vars value

/-- The condition of a filter, if there is one. -/
def compileFilter (schema : QuerySchema) (entity : EntityType) (vars : Variables) :
    Option Filter → Planner (Option Expr)
  | none => return none
  | some f => do return some (← Predicate.compile schema entity vars f)

/-- Plan selection and filter on one draft. -/
def planParts (schema : QuerySchema) (vars : Variables) (entity : EntityType)
    (field : Document.Field) : Planner (RootSelection × Option Filter × Option Expr) := do
  let selection ← Selection.planRoot schema vars entity field
  let filter ← filterOf vars field
  let condition ← compileFilter schema entity vars filter
  return (selection, filter, condition)

/-- The query of a finished draft. -/
def finish (entity : EntityType) (draft : Draft) (condition : Option Expr) : Query where
  root := entity.name
  table := entity.descriptor.qualifiedTable
  tableAlias := rootAlias
  joins := draft.joins
  columns := draft.columns
  filter := condition
  order := draft.order
  parameters := draft.parameters
  limit := none

/-- The plan of a root field. -/
def planRootField (schema : QuerySchema) (vars : Variables) (field : Document.Field) :
    Except PlanError RootPlan := do
  let some entity := schema.root? field.name | throw (.unknownRootField field.name)
  if let some (argument, _) := field.arguments.find? (·.1 ≠ whereArgument) then
    throw (.unknownArgument field.name argument)
  match (planParts schema vars entity field).run Draft.empty with
  | (.ok (selection, filter, condition), draft) =>
    return ⟨selection, filter, finish entity draft condition⟩
  | (.error e, _) => throw e

end Planning

end EntityQuery
