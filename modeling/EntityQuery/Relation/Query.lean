/-
EntityQuery/Relation/Query.lean

Relational queries: one table, the tables joined to it, the columns asked
for, a condition, an order and a limit.

Every table of a query has an alias.  The root is `t0`; the joins are `t1`,
`t2` and so on, one for every association path (`Joins`).  The values that a
condition compares with are bound to the names `p0`, `p1` and so on
(`Parameters`).
-/
import EntityQuery.Catalog.Entity
import EntityQuery.Json.Basic
import EntityQuery.Relation.Expr

namespace EntityQuery

/-- What a join keeps of rows without a match. -/
inductive JoinType where
  | inner
  | left
deriving DecidableEq, Repr

/-- A table joined along an association path from the root. -/
structure Join where
  path : List String
  table : String
  tableAlias : String
  operator : Operator
  operands : List Expr
  type : JoinType

/-- The condition of a join. -/
def Join.condition (j : Join) : Expr := .apply j.operator j.operands

/-- A column of the result under its name. -/
structure Column where
  expr : Expr
  name : String

/-- The direction of an order. -/
inductive Direction where
  | ascending
  | descending
deriving DecidableEq, Repr

/-- One key of an order. -/
structure OrderKey where
  expr : Expr
  direction : Direction

/-- A query. -/
structure Query where
  root : String
  table : String
  tableAlias : String
  joins : List Join
  columns : List Column
  filter : Option Expr
  order : List OrderKey
  parameters : Keyed Json
  limit : Option Nat

/-! ### Joins -/

/-- The alias of the root table. -/
def rootAlias : String := "t0"

/-- The joins of a query, in order. -/
abbrev Joins := List Join

namespace Joins

/-- The join of a path. -/
def find? (joins : Joins) (path : List String) : Option Join :=
  List.find? (fun join => join.path = path) joins

/-- The alias of a path; the empty path is the root. -/
def aliasOf? (joins : Joins) (path : List String) : Option String :=
  if path.isEmpty then some rootAlias else (find? joins path).map (·.tableAlias)

/-- The alias of the next join. -/
def nextAlias (joins : Joins) : String := "t" ++ toString (joins.length + 1)

/-- The two sides of the condition of a join, the parent's table and
identifier being given; none for a field that is no association. -/
def sides? (field : FieldDescriptor) (parent parentId tableAlias targetId : String) :
    Option (Expr × Expr) :=
  match field.kind with
  | .toOne _ joinColumn => some (.column parent joinColumn, .column tableAlias targetId)
  | .toMany _ mappedBy => some (.column tableAlias mappedBy, .column parent parentId)
  | .scalar _ => none

/-- Join the table that an association leads to, unless its path is joined
already.  The alias of the path comes back with the joins; a field that is
no association leaves both as they are. -/
def add (joins : Joins) (path : List String) (field : FieldDescriptor)
    (parent parentId table targetId : String) : String × Joins :=
  match find? joins path with
  | some join => (join.tableAlias, joins)
  | none =>
    let tableAlias := nextAlias joins
    match sides? field parent parentId tableAlias targetId with
    | none => (parent, joins)
    | some (left, right) =>
      (tableAlias, joins ++ [⟨path, table, tableAlias, .equal, [left, right], .left⟩])

end Joins

/-! ### Parameters -/

/-- The values bound to a query, in order of binding. -/
abbrev Parameters := Keyed Json

namespace Parameters

/-- The name of the next value. -/
def nextName (parameters : Parameters) : String := "p" ++ toString parameters.length

/-- Bind a value; the expression for it comes back with the parameters. -/
def bind (parameters : Parameters) (value : Json) : Expr × Parameters :=
  (.parameter (nextName parameters), parameters ++ [(nextName parameters, value)])

end Parameters

end EntityQuery
