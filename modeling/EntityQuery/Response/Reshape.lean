/-
EntityQuery/Response/Reshape.lean

From the flat rows of a joined query back to the requested tree.

At every node the rows are grouped by the text of the node's identifier, in
the order in which the identifiers first appear; rows without one belong to a
join that found nothing and are left out.  Each group becomes one object: a
column takes its value from the first row of the group, an association is
made from the group's rows in turn.
-/
import EntityQuery.Json.Text
import EntityQuery.Planning.Selection

namespace EntityQuery

/-- A stored value that its scalar cannot answer. -/
structure DecodeError where
  column : String
  message : String
deriving DecidableEq, Repr

namespace Reshape

/-- The value of a column of a row; a column that is not there is null. -/
def cell (row : Row) (column : String) : Json := (Keyed.find? row column).getD .null

/-- The text of the identifier of a row, if it has one. -/
def idText? (column : String) (row : Row) : Option String :=
  let id := cell row column
  if id.isNull then none else some id.text

/-- A list without the items that stand in it before. -/
def distinct (seen : List String) : List String → List String
  | [] => []
  | x :: xs => if seen.contains x then distinct seen xs else x :: distinct (x :: seen) xs

/-- The rows of each identifier, in order of first appearance. -/
def groups (column : String) (rows : List Row) : List (List Row) :=
  let keyed := rows.filterMap fun row => (idText? column row).map fun id => (id, row)
  (distinct [] (keyed.map (·.1))).map fun id =>
    keyed.filterMap fun (other, row) => if other = id then some row else none

/-- The answer of an association from its objects. -/
def associated : Cardinality → List Json → Json
  | .many, objects => .array objects
  | .one, [] => .null
  | .one, object :: _ => object

/-- The answer of a column from the rows of a group. -/
def scalarAnswer (column : String) (binding : ScalarBinding) (rows : List Row) :
    Except DecodeError Json :=
  let stored :=
    match rows with
    | [] => Json.null
    | row :: _ => cell row column
  (binding.output stored).mapError fun e => ⟨column, e.message⟩

mutual

/-- The objects of a node. -/
def objects (rows : List Row) : SelectionNode → Except DecodeError (List Json)
  | .mk _ _ _ idColumn fields => do
    let answers ← (groups idColumn rows).mapM fun group => members group fields
    return answers.map fun pairs => .object (Keyed.ofPairs pairs)

/-- The answers of requested fields in order, from the rows of one group. -/
def members (rows : List Row) : List SelectedField → Except DecodeError (List (String × Json))
  | [] => .ok []
  | field :: fields => do
    let answer ← member rows field
    let answers ← members rows fields
    return answer :: answers

/-- The answer of one requested field from the rows of one group. -/
def member (rows : List Row) : SelectedField → Except DecodeError (String × Json)
  | .scalar key column binding => do return (key, ← scalarAnswer column binding rows)
  | .association key cardinality node => do
    return (key, associated cardinality (← objects rows node))

end

end Reshape

end EntityQuery
