/-
EntityQuery/Relation/Wire.lean

Queries as JSON, for stores and tools that take them in written form.

A form with one part is an object whose only member is named for the form; a
constant null is a word.  Parameters are written in the order of their names.

Reading takes more than is written: a record may also be the list of its
fields in order, it may have other members besides, and a word may be an
object whose only member it names and is null.
-/
import EntityQuery.Notated
import EntityQuery.Relation.Query

namespace EntityQuery.Wire

/-- Members in the order of their names. -/
def sortedMembers (m : Keyed Json) : Keyed Json := m.mergeSort fun a b => a.1 ≤ b.1

/-! ### Writing -/

/-- An object of one member. -/
def tagged (tag : String) (value : Json) : Json := .object [(tag, value)]

/-- A value that may be missing. -/
def optional {α : Type} (write : α → Json) : Option α → Json
  | some a => write a
  | none => .null

/-- A constant. -/
def literalJson : Literal → Json
  | .integer i => tagged "Integer" (.ofInt i)
  | .float x => tagged "Float" (.ofBinary64 x)
  | .boolean b => tagged "Boolean" (.bool b)
  | .string s => tagged "String" (.string s)
  | .null => .string "Null"

/-- An operator with its operands. -/
def applicationJson (operator : Operator) (operands : List Json) : Json :=
  .object [("operator", .string operator.label), ("operands", .array operands)]

mutual

/-- An expression. -/
def exprJson : Expr → Json
  | .literal value => tagged "Literal" (literalJson value)
  | .column tableAlias name =>
    tagged "PropertyAccessExp"
      (.object [("table_alias", .string tableAlias), ("column", .string name)])
  | .parameter name => tagged "Parameter" (.string name)
  | .list items => tagged "List" (.array (exprJsons items))
  | .toText inner => tagged "ToText" (exprJson inner)
  | .locate needle haystack =>
    tagged "Locate" (.object [("needle", exprJson needle), ("haystack", exprJson haystack)])
  | .sameDocument left right =>
    tagged "StructuralEquals" (.object [("left", exprJson left), ("right", exprJson right)])
  | .apply operator operands =>
    tagged "OperatorApplicationExp" (applicationJson operator (exprJsons operands))

/-- Expressions in order. -/
def exprJsons : List Expr → List Json
  | [] => []
  | e :: es => exprJson e :: exprJsons es

end

/-- A join. -/
def joinJson (j : Join) : Json :=
  .object [("path", .array (j.path.map .string)), ("table_name", .string j.table),
    ("table_alias", .string j.tableAlias),
    ("joining_on", applicationJson j.operator (exprJsons j.operands)),
    ("join_type", .string (if j.type = .inner then "Inner" else "Left"))]

/-- A column of the result. -/
def columnJson (c : Column) : Json :=
  .object [("expression", exprJson c.expr), ("col_alias", .string c.name)]

/-- A key of the order. -/
def orderJson (k : OrderKey) : Json :=
  .object [("expression", exprJson k.expr),
    ("order", .string (if k.direction = .ascending then "Asc" else "Desc"))]

/-- A query. -/
def queryJson (q : Query) : Json :=
  .object [("root_entity", .string q.root),
    ("from", .object [("table_name", .string q.table), ("table_alias", .string q.tableAlias)]),
    ("joins", .array (q.joins.map joinJson)),
    ("select", .array (q.columns.map columnJson)),
    ("filter", optional exprJson q.filter),
    ("order_by", .array (q.order.map orderJson)),
    ("parameters", .object (sortedMembers q.parameters)),
    ("limit", optional (fun n => Json.ofInt (n : Nat)) q.limit)]

/-! ### Reading -/

/-- The fields of a record in the order of their names, from the members of an
object or from the list of all of them. -/
def fields? (names : List String) : Json → Option (List (Option Json))
  | .object members => some (names.map (Keyed.find? members))
  | .array items => if items.length = names.length then some (items.map some) else none
  | _ => none

/-- A string. -/
def text? : Json → Option String
  | .string s => some s
  | _ => none

/-- A list, item by item. -/
def list? {α : Type} (read : Json → Option α) : Json → Option (List α)
  | .array items => items.mapM read
  | _ => none

/-- A field that may be missing or null. -/
def optional? {α : Type} (read : Json → Option α) : Option Json → Option (Option α)
  | none => some none
  | some .null => some none
  | some value => (read value).map some

/-- An operator by its name. -/
def readOperator? (j : Json) : Option Operator :=
  (Notated.word? j).bind fun name => Operator.all.find? (·.label = name)

/-- A constant. -/
def readLiteral? : Json → Option Literal
  | .string "Null" => some .null
  | .object [("Null", .null)] => some .null
  | .object [("Integer", .number (.int i))] => some (.integer i)
  | .object [("Float", .number n)] => some (.float n.toBinary64)
  | .object [("Boolean", .bool b)] => some (.boolean b)
  | .object [("String", .string s)] => some (.string s)
  | _ => none

/-- A column of a table. -/
def readProperty? (j : Json) : Option Expr := do
  let [tableAlias, column] ← fields? ["table_alias", "column"] j | none
  return .column (← tableAlias.bind text?) (← column.bind text?)

mutual

/-- An expression. -/
def readExpr? : Json → Option Expr
  | .object [(tag, body)] =>
    if tag = "Literal" then (readLiteral? body).map .literal
    else if tag = "PropertyAccessExp" then readProperty? body
    else if tag = "Parameter" then (text? body).map .parameter
    else if tag = "List" then (readExprs? body).map .list
    else if tag = "ToText" then (readExpr? body).map .toText
    else if tag = "Locate" then
      (readPair? "needle" "haystack" body).map fun (needle, haystack) => .locate needle haystack
    else if tag = "StructuralEquals" then
      (readPair? "left" "right" body).map fun (left, right) => .sameDocument left right
    else if tag = "OperatorApplicationExp" then
      (readApplication? body).map fun (operator, operands) => .apply operator operands
    else none
  | _ => none

/-- A list of expressions. -/
def readExprs? : Json → Option (List Expr)
  | .array items => readItems? items
  | _ => none

/-- Expressions in order. -/
def readItems? : List Json → Option (List Expr)
  | [] => some []
  | j :: js => do
    let e ← readExpr? j
    let es ← readItems? js
    return e :: es

/-- A record of two expressions. -/
def readPair? (first second : String) : Json → Option (Expr × Expr)
  | .array [a, b] => do return (← readExpr? a, ← readExpr? b)
  | .object members => do return (← readMember? first members, ← readMember? second members)
  | _ => none

/-- The expression of a member. -/
def readMember? (name : String) : List (String × Json) → Option Expr
  | [] => none
  | (key, j) :: rest => if key = name then readExpr? j else readMember? name rest

/-- An operator with its operands. -/
def readApplication? : Json → Option (Operator × List Expr)
  | .array [operator, operands] => do
    return (← readOperator? operator, ← readExprs? operands)
  | .object members => do
    let operator ← (Keyed.find? members "operator").bind readOperator?
    return (operator, ← readOperands? members)
  | _ => none

/-- The operands among the members of a record. -/
def readOperands? : List (String × Json) → Option (List Expr)
  | [] => none
  | (key, j) :: rest => if key = "operands" then readExprs? j else readOperands? rest

end

/-- The type of a join. -/
def readJoinType? (j : Json) : Option JoinType := do
  match ← Notated.word? j with
  | "Inner" => some .inner
  | "Left" => some .left
  | _ => none

/-- A join. -/
def readJoin? (j : Json) : Option Join := do
  let [path, table, tableAlias, on, type] ←
    fields? ["path", "table_name", "table_alias", "joining_on", "join_type"] j | none
  let path ← path.bind (list? text?)
  let table ← table.bind text?
  let tableAlias ← tableAlias.bind text?
  let (operator, operands) ← on.bind readApplication?
  return ⟨path, table, tableAlias, operator, operands, ← type.bind readJoinType?⟩

/-- A column of the result. -/
def readColumn? (j : Json) : Option Column := do
  let [expr, name] ← fields? ["expression", "col_alias"] j | none
  return ⟨← expr.bind readExpr?, ← name.bind text?⟩

/-- A direction. -/
def readDirection? (j : Json) : Option Direction := do
  match ← Notated.word? j with
  | "Asc" => some .ascending
  | "Desc" => some .descending
  | _ => none

/-- A key of the order. -/
def readOrder? (j : Json) : Option OrderKey := do
  let [expr, direction] ← fields? ["expression", "order"] j | none
  return ⟨← expr.bind readExpr?, ← direction.bind readDirection?⟩

/-- A number of rows. -/
def readCount? : Json → Option Nat
  | .number (.int i) => if 0 ≤ i then some i.toNat else none
  | _ => none

/-- A table and its alias. -/
def readSource? (j : Json) : Option (String × String) := do
  let [table, tableAlias] ← fields? ["table_name", "table_alias"] j | none
  return (← table.bind text?, ← tableAlias.bind text?)

/-- Values by their names. -/
def readParameters? : Json → Option (Keyed Json)
  | .object members => some members
  | _ => none

/-- A query. -/
def readQuery? (j : Json) : Option Query := do
  let [root, source, joins, columns, filter, order, parameters, limit] ←
    fields? ["root_entity", "from", "joins", "select", "filter", "order_by", "parameters",
      "limit"] j | none
  let root ← root.bind text?
  let (table, tableAlias) ← source.bind readSource?
  let joins ← joins.bind (list? readJoin?)
  let columns ← columns.bind (list? readColumn?)
  let filter ← optional? readExpr? filter
  let order ← order.bind (list? readOrder?)
  let parameters ← parameters.bind readParameters?
  let limit ← optional? readCount? limit
  return ⟨root, table, tableAlias, joins, columns, filter, order, parameters, limit⟩

end EntityQuery.Wire
