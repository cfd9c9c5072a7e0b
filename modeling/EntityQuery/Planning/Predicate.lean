/-
EntityQuery/Planning/Predicate.lean

From filters to conditions on joined tables.

A leaf joins the associations of its path, checks its operator against the
scalar of its field, coerces its operand and compares the stored form of the
column with bound values (`Comparison`).  Payloads are compared as encoded
text; a substring search is a test of the place where the text occurs.
-/
import EntityQuery.Criteria.Filter
import EntityQuery.Planning.Draft

namespace EntityQuery

/-! ### Comparisons of a column -/

namespace Comparison

/-- The stored form of a column. -/
def storedColumn (b : ScalarBinding) (column : Expr) : Expr :=
  match b.storage with
  | .encoded => .toText column
  | .native => column

/-- The stored form of a value. -/
def storedValue (b : ScalarBinding) (value : Json) : Json :=
  match b.storage with
  | .encoded => b.coercion.stored value
  | .native => value

/-- Whether the column is null, or is not. -/
def nullCheck (column : Expr) (isNull : Bool) : Expr :=
  .apply (if isNull then .isNull else .isNotNull) [column]

/-- Whether the column is one of the values, or is none of them. -/
def membership (b : ScalarBinding) (column : Expr) (values : List Json) (negated : Bool) :
    Planner Expr := do
  let candidates ← Planner.bindValues (values.map (storedValue b))
  return .binary (if negated then .noneOf else .oneOf) (storedColumn b column) (.list candidates)

/-- The comparison of the stored column with a bound value. -/
def compareWith (operator : Operator) (b : ScalarBinding) (column : Expr) (value : Json) :
    Planner Expr := do
  return .binary operator (storedColumn b column) (← Planner.bindValue (storedValue b value))

/-- The condition of an operator with its operand.  Equality with null is a
check for null. -/
def translate (b : ScalarBinding) (column : Expr) (operator : FilterOperator) (value : Json) :
    Planner Expr :=
  match operator with
  | .eq => if value.isNull then return nullCheck column true else compareWith .equal b column value
  | .ne =>
    if value.isNull then return nullCheck column false else compareWith .notEqual b column value
  | .gt => compareWith .greaterThan b column value
  | .ge => compareWith .greaterThanEqual b column value
  | .lt => compareWith .lessThan b column value
  | .le => compareWith .lessThanEqual b column value
  | .like => compareWith .like b column value
  | .locate => do
    let needle ← Planner.bindValue (.string (b.coercion.needle value))
    return .binary .greaterThan (.locate needle (.toText column)) (.literal (.integer 0))
  | .contains => do
    return .sameDocument (.toText column) (← Planner.bindValue (b.coercion.stored value))
  | .oneOf => membership b column [value] false
  | .noneOf => membership b column [value] true
  | .isNull => return nullCheck column true
  | .notNull => return nullCheck column false

end Comparison

/-! ### Leaves -/

namespace Predicate

/-- The coerced value of an operand: strictly for a literal, leniently for
anything with a variable in it. -/
def coerce (vars : Variables) (field : String) (b : ScalarBinding) (operand : Operand) :
    Except PlanError Json := do
  let value ← operand.resolve vars
  let coerced :=
    if operand.hasVariables then b.coercion.input value else b.coercion.literal value
  coerced.mapError fun e => .invalidValue field e.message

/-- The value of a switch. -/
def flag (vars : Variables) (field : String) (operator : FilterOperator)
    (operand : Operand) : Except PlanError Bool := do
  match ← operand.resolve vars with
  | .bool b => return b
  | _ => throw (.invalidValue field (operator.token ++ " expects a Boolean"))

/-- The candidates of a membership test; a value that is no list is the only
one. -/
def candidates (vars : Variables) (field : String) (b : ScalarBinding)
    (operand : Operand) : Except PlanError (List Json) := do
  let items := (← operand.items? vars).getD [operand]
  items.mapM (coerce vars field b)

/-- The condition of a supported operator on the column of a field. -/
def comparison (vars : Variables) (field : String) (column : Expr) (b : ScalarBinding)
    (operator : FilterOperator) (operand : Operand) : Planner Expr := do
  if operator.takesFlag then
    let given ← flag vars field operator operand
    return Comparison.nullCheck column (decide (operator = .isNull) == given)
  else if operator.takesList then
    let values ← candidates vars field b operand
    Comparison.membership b column values (decide (operator = .noneOf))
  else
    let value ← coerce vars field b operand
    Comparison.translate b column operator value

/-- The fault of a path that goes on past a scalar field; `rest` is what
comes after it. -/
def pastScalar (entity : EntityType) (b : ScalarBinding) (fieldPath segment : String)
    (rest : List String) : PlanError :=
  match rest with
  | [word] =>
    if isOperatorToken word then .unsupportedOperator fieldPath word b.name
    else .unknownField entity.name (".".intercalate (segment :: rest))
  | _ => .unknownField entity.name (".".intercalate (segment :: rest))

/-- The condition of a leaf whose path leads on from `entity`, which was
reached over the associations `before`. -/
def compileFrom (schema : QuerySchema) (vars : Variables) (operator : String)
    (operand : Operand) (entity : EntityType) (tableAlias : String) (before : List String) :
    List String → Planner Expr
  | [] => throw (.unknownField entity.name (".".intercalate before))
  | segment :: rest => do
    let path := before ++ [segment]
    let fieldPath := ".".intercalate path
    let some field := entity.field? segment | throw (.unknownField entity.name segment)
    match field.binding, rest with
    | some b, [] =>
      match (FilterOperator.ofToken? operator).filter b.supports with
      | some op =>
        comparison vars fieldPath (.column tableAlias field.descriptor.column) b op operand
      | none => throw (.unsupportedOperator fieldPath operator b.name)
    | some b, rest => throw (pastScalar entity b fieldPath segment rest)
    | none, [] =>
      throw (.unsupportedOperator fieldPath operator (field.descriptor.target?.getD ""))
    | none, rest => do
      let (next, target) ← Planner.join schema entity tableAlias path field
      compileFrom schema vars operator operand target next path rest

/-- The condition of a leaf. -/
def compileLeaf (schema : QuerySchema) (root : EntityType) (vars : Variables)
    (leaf : FilterLeaf) : Planner Expr :=
  if leaf.path.isEmpty then throw (.invalidValue "" "empty filter path")
  else compileFrom schema vars leaf.operator leaf.value root rootAlias [] leaf.path

/-! ### Trees -/

mutual

/-- The condition of a filter on the entity `root`. -/
def compile (schema : QuerySchema) (root : EntityType) (vars : Variables) :
    Filter → Planner Expr
  | .leaf condition => compileLeaf schema root vars condition
  | .and children => do return .allOf (← compileAll schema root vars children)
  | .or children => do return .anyOf (← compileAll schema root vars children)
  | .not child => do return .negation (← compile schema root vars child)

/-- The conditions of filters from left to right. -/
def compileAll (schema : QuerySchema) (root : EntityType) (vars : Variables) :
    List Filter → Planner (List Expr)
  | [] => return []
  | f :: fs => do
    let e ← compile schema root vars f
    let es ← compileAll schema root vars fs
    return e :: es

end

end Predicate

end EntityQuery
