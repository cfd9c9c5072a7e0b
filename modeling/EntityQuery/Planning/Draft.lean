/-
EntityQuery/Planning/Draft.lean

The query under construction while a root field is planned.

Selection and filter work on one draft, so a path that both use is joined
once.  A step that fails leaves what was added before it in the draft.
-/
import EntityQuery.Criteria.Operand
import EntityQuery.Relation.Query
import EntityQuery.Schema.Basic

namespace EntityQuery

/-- The parts of a query that planning adds to. -/
structure Draft where
  joins : Joins
  columns : List Column
  order : List OrderKey
  parameters : Parameters

namespace Draft

/-- Nothing added yet. -/
def empty : Draft := ⟨[], [], [], []⟩

end Draft

/-- A step of planning. -/
abbrev Planner (α : Type) := ExceptT PlanError (StateM Draft) α

namespace Planner

/-- Bind a value to the query. -/
def bindValue (value : Json) : Planner Expr :=
  modifyGet fun (draft : Draft) =>
    let (expr, parameters) := draft.parameters.bind value
    (expr, { draft with parameters := parameters })

/-- Bind values one after another. -/
def bindValues (values : List Json) : Planner (List Expr) := values.mapM bindValue

/-- Ask for a column under a name, unless the name is asked for already. -/
def project (expr : Expr) (name : String) : Planner Unit :=
  modify fun draft =>
    if draft.columns.any (·.name = name) then draft
    else { draft with columns := draft.columns ++ [⟨expr, name⟩] }

/-- Order by one more key. -/
def orderBy (expr : Expr) (direction : Direction) : Planner Unit :=
  modify fun draft => { draft with order := draft.order ++ [⟨expr, direction⟩] }

/-- Join the entity that an association of `parent` leads to; its alias and
the entity come back. -/
def join (schema : QuerySchema) (parent : EntityType) (parentAlias : String)
    (path : List String) (field : SchemaField) : Planner (String × EntityType) := do
  match field.descriptor.target?.bind schema.entity? with
  | none => throw (.unknownField parent.name field.name)
  | some target =>
    modifyGet fun (draft : Draft) =>
      let (tableAlias, joins) := Joins.add draft.joins path field.descriptor parentAlias
        parent.idColumn target.descriptor.qualifiedTable target.idColumn
      ((tableAlias, target), { draft with joins := joins })

end Planner

end EntityQuery
