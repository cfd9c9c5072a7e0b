/-
EntityQuery/Store/Tables.lean

Tables of rows in memory, and running queries on them.

A query starts with one binding for every row of its root table, extends the
bindings join by join, keeps those on which its condition is true, sorts
them, cuts them off at its limit and answers a row for each.  A join whose
table does not exist finds no rows; the root table has to exist.

Sort keys are values of any kind, and their order may be inconsistent.  Where
the sort gives up on them there is no answer at all (`Tables.run?`), not even
an error: whoever asked the store gives up as well.
-/
import EntityQuery.Schema.Basic
import EntityQuery.Store.Eval
import EntityQuery.Store.Sort

namespace EntityQuery

/-- The tables of a store, by name. -/
abbrev Tables := Keyed (List Row)

namespace Tables

/-! ### Filling tables -/

/-- No tables. -/
def empty : Tables := []

/-- The rows of a table, none if there is no such table. -/
def rowsOf (tables : Tables) (table : String) : List Row := (Keyed.find? tables table).getD []

/-- The number of rows of a table. -/
def rowCount (tables : Tables) (table : String) : Nat := (rowsOf tables table).length

/-- Append a row to a table, which comes into being with its first row. -/
def insertRow (tables : Tables) (table : String) (row : Row) : Tables :=
  Keyed.put table (rowsOf tables table ++ [row]) tables

/-- The form of a field's value in its column. -/
def storedForm (field : SchemaField) (value : Json) : Json :=
  match field.binding with
  | some b => if value.isNull then value else b.coercion.stored value
  | none => value

/-- The row of the members of an object, after the columns in `row`. -/
def rowOf (entity : EntityType) (row : Row) : List (String × Json) → Except StoreError Row
  | [] => .ok row
  | (name, value) :: rest =>
    match entity.field? name with
    | none => .error (.malformedRow (entity.name ++ " has no field '" ++ name ++ "'"))
    | some field =>
      rowOf entity (Keyed.put field.descriptor.column (storedForm field value) row) rest

/-- Append an object of an entity, given by its fields, to the table of the
entity. -/
def insertEntity (tables : Tables) (schema : QuerySchema) (entity : String) (object : Json) :
    Except StoreError Tables :=
  match schema.entity? entity with
  | none => .error (.unknownTable entity)
  | some e =>
    match object with
    | .object members =>
      (rowOf e [] members).map fun row => insertRow tables e.descriptor.qualifiedTable row
    | _ => .error (.malformedRow (entity ++ " must be given as an object"))

/-! ### Running queries -/

open Store

/-- The extensions of a binding by the rows for which a condition is
true. -/
def matching (parameters : Parameters) (tableAlias : String) (condition : Expr)
    (binding : Binding) : List Row → Except StoreError (List Binding)
  | [] => .ok []
  | row :: rows => do
    let candidate := Keyed.put tableAlias (some row) binding
    let value ← eval parameters candidate condition
    let others ← matching parameters tableAlias condition binding rows
    return if isTrue value then candidate :: others else others

/-- The extensions of a binding by a join. -/
def extend (tables : Tables) (parameters : Parameters) (join : Join) (binding : Binding) :
    Except StoreError (List Binding) := do
  let rows := rowsOf tables join.table
  let found ← matching parameters join.tableAlias join.condition binding rows
  if found.isEmpty && join.type == .left then return [Keyed.put join.tableAlias none binding]
  return found

/-- The bindings extended by one join after another. -/
def joinAll (tables : Tables) (parameters : Parameters) (bindings : List Binding) :
    List Join → Except StoreError (List Binding)
  | [] => .ok bindings
  | join :: joins => do
    let extended ← bindings.mapM (extend tables parameters join)
    joinAll tables parameters extended.flatten joins

/-- The bindings on which a condition is true. -/
def keep (parameters : Parameters) (condition : Expr) (bindings : List Binding) :
    Except StoreError (List Binding) :=
  bindings.filterM fun binding => do return isTrue (← eval parameters binding condition)

/-- The order of two keys in a direction; nulls are last in both. -/
def keyOrder (direction : Direction) (left right : Json) : Ordering :=
  let order := sortOrder left right
  match direction with
  | .ascending => order
  | .descending => if left.isNull || right.isNull then order else order.swap

/-- The order of two lists of keys: that of the first keys that differ. -/
def keysOrder : List Direction → List Json → List Json → Ordering
  | d :: ds, x :: xs, y :: ys => (keyOrder d x y).then (keysOrder ds xs ys)
  | _, _, _ => .eq

/-- Whether something with sort keys comes before another in the order of a
query. -/
def precedes {α : Type} (order : List OrderKey) (a b : List Json × α) : Bool :=
  keysOrder (order.map (·.direction)) a.1 b.1 == .lt

/-- The bindings with the values of their sort keys. -/
def keyed (parameters : Parameters) (order : List OrderKey) (bindings : List Binding) :
    Except StoreError (List (List Json × Binding)) :=
  bindings.mapM fun binding => do
    return (← order.mapM fun key => eval parameters binding key.expr, binding)

/-- The bindings in the order of a query. -/
def sorted [Disorder] (parameters : Parameters) (order : List OrderKey)
    (bindings : List Binding) : Except StoreError (List Binding) := do
  if order.isEmpty then return bindings
  return (arrange (precedes order) (← keyed parameters order bindings)).map (·.2)

/-- The row of a result for a binding. -/
def resultRow (parameters : Parameters) (columns : List Column) (binding : Binding) :
    Except StoreError Row := do
  let cells ← columns.mapM fun column => do
    return (column.name, ← eval parameters binding column.expr)
  return Keyed.ofPairs cells

/-- The bindings of a query: those of the rows of its root, joined, on which
its condition is true. -/
def bindingsOf (tables : Tables) (q : Query) : Except StoreError (List Binding) := do
  let some rows := Keyed.find? tables q.table | throw (.unknownTable q.table)
  let roots : List Binding := rows.map fun row => [(q.tableAlias, some row)]
  let joined ← joinAll tables q.parameters roots q.joins
  match q.filter with
  | some condition => keep q.parameters condition joined
  | none => return joined

/-- The rows that a query asks for, in the order that the sort leaves them
in. -/
def run [Disorder] (tables : Tables) (q : Query) : Except StoreError (List Row) := do
  let ordered ← sorted q.parameters q.order (← tables.bindingsOf q)
  let limited := match q.limit with
    | some limit => ordered.take limit
    | none => ordered
  limited.mapM (resultRow q.parameters q.columns)

/-- What a query sorts: its bindings with their sort keys.  A query without an
order sorts nothing. -/
def sorts (tables : Tables) (q : Query) : Except StoreError (List (List Json × Binding)) := do
  if q.order.isEmpty then return []
  keyed q.parameters q.order (← tables.bindingsOf q)

/-- Whether the sort gives up on what a query sorts. -/
def givesUp [Disorder] (tables : Tables) (q : Query) : Bool :=
  match tables.sorts q with
  | .ok keyed => (sort? (precedes q.order) keyed).isNone
  | .error _ => false

/-- The answer of the store to a query, unless the sort gives up. -/
def run? [Disorder] (tables : Tables) (q : Query) : Option (Except StoreError (List Row)) :=
  if tables.givesUp q then none else some (tables.run q)

end Tables

end EntityQuery
