/-
EntityQuery/Store/Eval.lean

The value of an expression on bound rows.

Every table alias is bound to a row, or to nothing where a join found no
match; then all its columns are null.  Truth has three values, null being
the third: a comparison with null is null, `and` and `or` are null where the
other operands do not decide.
-/
import EntityQuery.Json.Read
import EntityQuery.Json.Text
import EntityQuery.Relation.Query
import EntityQuery.Sql.Substitute
import EntityQuery.Store.Compare
import EntityQuery.Store.Like

namespace EntityQuery

/-- Why a store gives no rows. -/
inductive StoreError where
  | remote (message : String)
  | statement (error : SubstitutionError)
  | malformedRow (message : String)
  | unknownTable (name : String)
  | evaluation (message : String)
deriving DecidableEq, Repr

/-- The wording of an error. -/
def StoreError.message : StoreError → String
  | .remote message => "Clickhouse Error: " ++ message
  | .statement error => "SQL generation failed: " ++ error.message
  | .malformedRow message => "Store returned a malformed row: " ++ message
  | .unknownTable name => "Unknown table '" ++ name ++ "'"
  | .evaluation message => "Cannot evaluate query: " ++ message

namespace Store

/-- The row bound to each alias, or nothing. -/
abbrev Binding := Keyed (Option Row)

/-! ### Values -/

/-- The value of a constant. -/
def literalValue : Literal → Json
  | .integer i => .ofInt i
  | .float x => .ofBinary64 x
  | .boolean b => .bool b
  | .string s => .string s
  | .null => .null

/-- The value of a column. -/
def columnValue (binding : Binding) (tableAlias name : String) : Except StoreError Json :=
  match Keyed.find? binding tableAlias with
  | none => .error (.evaluation ("unknown table alias '" ++ tableAlias ++ "'"))
  | some none => .ok .null
  | some (some row) => .ok ((Keyed.find? row name).getD .null)

/-- The value bound to a parameter. -/
def parameterValue (parameters : Parameters) (name : String) : Except StoreError Json :=
  match Keyed.find? parameters name with
  | some value => .ok value
  | none => .error (.evaluation ("missing parameter '" ++ name ++ "'"))

/-- The text of a value; null has none. -/
def textValue (value : Json) : Json :=
  match value.textOrSelf? with
  | some text => .string text
  | none => .null

/-- The place of one text in another; null if either is null. -/
def locateValue (needle haystack : Json) : Json :=
  match haystack.textOrSelf?, needle.textOrSelf? with
  | some h, some n => .ofInt (locate n h)
  | _, _ => .null

/-- The document that a string spells; anything else stands for itself. -/
def asDocument : Json → Json
  | .string text => (Json.read? text).getD (.string text)
  | value => value

/-- Equality of documents; null if either is null. -/
def sameDocumentValue (left right : Json) : Json :=
  if left.isNull || right.isNull then .null
  else .bool ((asDocument left).same (asDocument right))

/-! ### Operators -/

/-- Whether a value is true. -/
def isTrue : Json → Bool
  | .bool b => b
  | _ => false

/-- Whether a value is false. -/
def isFalse : Json → Bool
  | .bool b => !b
  | _ => false

/-- False if any operand is false, else true if all are true, else null. -/
def conjunction (operands : List Json) : Json :=
  if operands.any isFalse then .bool false
  else if operands.all isTrue then .bool true
  else .null

/-- True if any operand is true, else false if all are false, else null. -/
def disjunction (operands : List Json) : Json :=
  if operands.any isTrue then .bool true
  else if operands.all isFalse then .bool false
  else .null

/-- The contrary of a truth value. -/
def contrary : Json → Json
  | .bool b => .bool !b
  | _ => .null

/-- Whether two values that are not null are equal, as comparisons see
it. -/
def isEqual (left right : Json) : Bool := compareValues left right == some .eq

/-- Whether a value is among candidates; null if the value is null. -/
def membership (left : Json) (candidates : List Json) (expected : Bool) : Json :=
  if left.isNull then .null else .bool (candidates.any (isEqual left) == expected)

/-- Whether a text is like a pattern; null if either is null. -/
def likeValue (text pattern : Json) : Json :=
  match text.textOrSelf?, pattern.textOrSelf? with
  | some t, some p => .bool (like t p)
  | _, _ => .null

/-- Whether an order between two values satisfies a comparison; values
without an order satisfy only inequality. -/
def satisfies (operator : Operator) (order : Option Ordering) : Bool :=
  match operator with
  | .equal => order == some .eq
  | .notEqual => order != some .eq
  | .lessThan => order == some .lt
  | .greaterThan => order == some .gt
  | .lessThanEqual => order == some .lt || order == some .eq
  | _ => order == some .gt || order == some .eq

/-- A comparison; null if either side is null. -/
def comparison (operator : Operator) (left right : Json) : Json :=
  if left.isNull || right.isNull then .null
  else .bool (satisfies operator (compareValues left right))

/-- The fault of an operator with the wrong operands. -/
def arityFault (operator : Operator) (count : Nat) : StoreError :=
  .evaluation ("operator " ++ operator.label ++ " applied to " ++ toString count ++ " operands")

/-- The value of an operator on values. -/
def applyOperator (operator : Operator) (operands : List Json) : Except StoreError Json :=
  let fault : Except StoreError Json := .error (arityFault operator operands.length)
  match operator with
  | .and => .ok (conjunction operands)
  | .or => .ok (disjunction operands)
  | .not =>
    match operands with
    | [value] => .ok (contrary value)
    | _ => fault
  | .isNull =>
    match operands with
    | [value] => .ok (.bool value.isNull)
    | _ => fault
  | .isNotNull =>
    match operands with
    | [value] => .ok (.bool !value.isNull)
    | _ => fault
  | .oneOf =>
    match operands with
    | [left, .array candidates] => .ok (membership left candidates true)
    | _ => fault
  | .noneOf =>
    match operands with
    | [left, .array candidates] => .ok (membership left candidates false)
    | _ => fault
  | .like =>
    match operands with
    | [text, pattern] => .ok (likeValue text pattern)
    | _ => fault
  | _ =>
    match operands with
    | [left, right] => .ok (comparison operator left right)
    | _ => fault

/-! ### Expressions -/

mutual

/-- The value of an expression. -/
def eval (parameters : Parameters) (binding : Binding) : Expr → Except StoreError Json
  | .literal value => .ok (literalValue value)
  | .column tableAlias name => columnValue binding tableAlias name
  | .parameter name => parameterValue parameters name
  | .list items => do return .array (← evalAll parameters binding items)
  | .toText inner => do return textValue (← eval parameters binding inner)
  | .locate needle haystack => do
    let h ← eval parameters binding haystack
    let n ← eval parameters binding needle
    return locateValue n h
  | .sameDocument left right => do
    let l ← eval parameters binding left
    let r ← eval parameters binding right
    return sameDocumentValue l r
  | .apply operator operands => do
    applyOperator operator (← evalAll parameters binding operands)

/-- The values of expressions in order. -/
def evalAll (parameters : Parameters) (binding : Binding) :
    List Expr → Except StoreError (List Json)
  | [] => .ok []
  | e :: es => do
    let v ← eval parameters binding e
    let vs ← evalAll parameters binding es
    return v :: vs

end

end Store

end EntityQuery
