/-
EntityQuery/Criteria/Filter.lean

Filters: the tree of conditions that a `where` argument spells.

Reading is by form alone.  The value of a field is a group of operators if
all its keys are operator words, which gives one leaf for each; any other
object goes on along an association.  `AND` and `OR` take a list of criteria
or an object whose entries are the operands, `NOT` takes one object.  Which
fields and operators exist is decided when the filter is compiled.

Criteria may nest to a depth of `maxCriteriaDepth`, since values of variables
are not bounded by the document parser.
-/
import EntityQuery.Criteria.Operand
import EntityQuery.Scalar.Kind

namespace EntityQuery

/-- A condition on a field, reached over associations from the root. -/
structure FilterLeaf where
  path : List String
  operator : String
  value : Operand

/-- A tree of conditions. -/
inductive Filter where
  | leaf (condition : FilterLeaf)
  | and (children : List Filter)
  | or (children : List Filter)
  | not (child : Filter)

instance : Inhabited Filter := ⟨.and []⟩

namespace Filter

mutual

/-- The leaves from left to right. -/
def leaves : Filter → List FilterLeaf
  | .leaf condition => [condition]
  | .and children => leavesOf children
  | .or children => leavesOf children
  | .not child => leaves child

/-- The leaves of filters from left to right. -/
def leavesOf : List Filter → List FilterLeaf
  | [] => []
  | f :: fs => leaves f ++ leavesOf fs

end

/-- All of the filters; a single one stands for itself. -/
def allOf : List Filter → Filter
  | [f] => f
  | fs => .and fs

end Filter

namespace Criteria

/-- The greatest depth of criteria inside criteria. -/
def maxCriteriaDepth : Nat := 64

/-- The path of a place in a message; the root is called `where`. -/
def context (path : List String) : String :=
  if path.isEmpty then "where" else ".".intercalate path

/-- Whether a key is one of `AND`, `OR` and `NOT`. -/
def isCombinator (key : String) : Bool := key = "AND" || key = "OR" || key = "NOT"

/-- Whether an operand is written as an object. -/
def isObject : Operand → Bool
  | .object _ => true
  | _ => false

/-- Whether entries are the operators of one field.  A word in the shape of
an operator that is none still counts, unless its value is an object, so that
it can be refused with the name of the scalar. -/
def isLeafGroup (entries : List (String × Operand)) : Bool :=
  !entries.isEmpty && entries.all fun (key, value) =>
    isOperatorToken key && !isCombinator key &&
      ((FilterOperator.ofToken? key).isSome || !isObject value)

/-- The operands of `AND` or `OR` as criteria. -/
def groupOperands (vars : Variables) (path : List String) (combinator : String)
    (value : Operand) : Except PlanError (List Operand) := do
  let operands ← match ← value.items? vars with
    | some items => pure items
    | none => do
      let entries ← value.entries vars (context path)
      pure (entries.map fun entry => .object [entry])
  if operands.isEmpty then
    throw (.invalidValue (context path) (combinator ++ " requires at least one operand"))
  return operands

/-- The filters of one entry of criteria at `path`, given how to read the
criteria inside it. -/
def readEntry (vars : Variables) (inner : List String → Operand → Except PlanError Filter)
    (path : List String) (key : String) (value : Operand) : Except PlanError (List Filter) := do
  if key = "AND" then
    return [.and (← (← groupOperands vars path key value).mapM (inner path))]
  else if key = "OR" then
    return [.or (← (← groupOperands vars path key value).mapM (inner path))]
  else if key = "NOT" then
    return [.not (← inner path value)]
  else
    let below := path ++ [key]
    let entries ← value.entries vars (context below)
    if isLeafGroup entries then
      return entries.map fun (operator, operand) => .leaf ⟨below, operator, operand⟩
    else
      return [← inner below (.object entries)]

/-- The filter of criteria at `path`, with `room` levels left for them. -/
def readWithin (vars : Variables) : Nat → List String → Operand → Except PlanError Filter
  | 0, path, _ => .error (.invalidValue (context path) "criteria nested too deeply")
  | room + 1, path, value => do
    let entries ← value.entries vars (context path)
    if entries.isEmpty then
      throw (.invalidValue (context path) "criteria must name at least one field or operator")
    let children ← entries.mapM fun (key, inner) =>
      readEntry vars (readWithin vars room) path key inner
    return .allOf children.flatten

/-- The filter of a `where` argument.  An empty object restricts nothing;
below it, empty criteria are refused. -/
def read (vars : Variables) (argument : Document.Value) :
    Except PlanError (Option Filter) := do
  let value := Operand.ofValue argument
  let entries ← value.entries vars "where"
  if entries.isEmpty then return none
  return some (← readWithin vars (maxCriteriaDepth + 1) [] value)

end Criteria

end EntityQuery
