/-
EntityQuery/Schema/Sdl.lean

The schema in the schema definition language.

Scalars that are not built in come first, then the root fields, then for
every entity its root type, its object type and its criteria, then the
criteria of the scalars in the order of their names, and the directions of
an order at the end.  Scalars of one name share one criteria type, that of
the first field bound to one of them.
-/
import EntityQuery.Schema.Basic

namespace EntityQuery

namespace QuerySchema

/-- The scalars that need no declaration. -/
def builtInScalars : List String := ["String", "Int", "Float", "Boolean", "ID"]

/-- The criteria type of a scalar. -/
structure ScalarCriteria where
  typeName : String
  scalar : String
  operators : List FilterOperator
deriving DecidableEq, Repr

/-- The criteria type that a field brings along. -/
def scalarCriteria? (f : SchemaField) : Option ScalarCriteria :=
  match f.binding, f.criteria with
  | some b, .scalar typeName operators => some ⟨typeName, b.name, operators⟩
  | _, _ => none

/-- One criteria type for each name, the first of its name, sorted. -/
def scalarCriteria (s : QuerySchema) : List ScalarCriteria :=
  let found := (s.entities.flatMap (·.scalarFields)).filterMap scalarCriteria?
  let distinct := found.foldl
    (fun kept c => if kept.any (·.typeName = c.typeName) then kept else kept ++ [c]) []
  distinct.mergeSort fun a b => a.typeName ≤ b.typeName

/-- A list without the items that equal the one before them. -/
def dropRepeats : List String → List String
  | [] => []
  | [x] => [x]
  | x :: y :: rest => if x = y then dropRepeats (y :: rest) else x :: dropRepeats (y :: rest)

/-- The scalars that are declared. -/
def customScalars (s : QuerySchema) : List String :=
  dropRepeats ((s.scalarCriteria.map (·.scalar)).filter fun name => !builtInScalars.contains name)

/-! ### Lines -/

/-- An opening line, indented lines, a closing brace and an empty line. -/
def block (head : String) (lines : List String) : String :=
  head ++ " \x7b\n" ++ String.join (lines.map fun line => "  " ++ line ++ "\n") ++ "\x7d\n\n"

/-- The declaration of a scalar under its description. -/
def scalarText (s : QuerySchema) (name : String) : String :=
  let description :=
    match s.registry.bindings.find? (·.name = name) with
    | some b => "\"" ++ b.description ++ "\"\n"
    | none => ""
  description ++ "scalar " ++ name ++ "\n\n"

/-- The type of a field in answers. -/
def outputText : OutputType → String
  | .scalar name => name
  | .object entity => entity
  | .list entity => "[" ++ entity ++ "]"

/-- The line of a field in its object type. -/
def fieldLine (f : SchemaField) : String :=
  let arguments :=
    match f.output with
    | .scalar _ => "(orderBy: OrderBy)"
    | _ => ""
  f.name ++ arguments ++ ": " ++ outputText f.output

/-- The three types of an entity. -/
def entityText (e : EntityType) : String :=
  block ("type " ++ e.rootName) ["select: [" ++ e.name ++ "]"] ++
    block ("type " ++ e.name) (e.fields.map fieldLine) ++
    block ("input " ++ e.criteriaName)
      (["AND: [" ++ e.criteriaName ++ "!]", "OR: [" ++ e.criteriaName ++ "!]",
        "NOT: " ++ e.criteriaName] ++
        e.fields.map fun f => f.name ++ ": " ++ f.criteria.name)

/-- The type of the operand of an operator. -/
def operandText (scalar : String) (op : FilterOperator) : String :=
  if op.takesList then "[" ++ scalar ++ "]"
  else if op.takesFlag then "Boolean"
  else if op = .like then "String"
  else scalar

/-- The criteria type of a scalar. -/
def criteriaText (c : ScalarCriteria) : String :=
  block ("input " ++ c.typeName)
    (c.operators.map fun op => op.token ++ ": " ++ operandText c.scalar op)

/-- The whole schema. -/
def sdl (s : QuerySchema) : String :=
  String.join (s.customScalars.map s.scalarText) ++
    block "type Query"
      (s.entities.map fun e => e.rootName ++ "(where: " ++ e.criteriaName ++ "): " ++ e.rootName) ++
    String.join (s.entities.map entityText) ++
    String.join (s.scalarCriteria.map criteriaText) ++
    "enum OrderBy \x7b\n  ASC\n  DESC\n\x7d\n"

end QuerySchema

end EntityQuery
