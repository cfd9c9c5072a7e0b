/-
EntityQuery/Relation/Expr.lean

Expressions over the columns of joined tables, in no dialect.

The text of a value, the place of one text in another and the equality of
whole documents are forms of their own, so that every store can spell or
evaluate them in its way.
-/
import EntityQuery.Number.Binary64

namespace EntityQuery

/-- A constant. -/
inductive Literal where
  | integer (i : Int)
  | float (x : Binary64)
  | boolean (b : Bool)
  | string (s : String)
  | null
deriving DecidableEq

/-- The operators of expressions. -/
inductive Operator where
  | equal
  | notEqual
  | lessThan
  | greaterThan
  | lessThanEqual
  | greaterThanEqual
  | like
  | and
  | or
  | oneOf
  | noneOf
  | not
  | isNull
  | isNotNull
deriving DecidableEq, Repr

namespace Operator

/-- All operators. -/
def all : List Operator :=
  [.equal, .notEqual, .lessThan, .greaterThan, .lessThanEqual, .greaterThanEqual, .like, .and,
   .or, .oneOf, .noneOf, .not, .isNull, .isNotNull]

/-- The name of an operator in messages and in written queries. -/
def label : Operator → String
  | .equal => "Equal"
  | .notEqual => "NotEqual"
  | .lessThan => "LessThan"
  | .greaterThan => "GreaterThan"
  | .lessThanEqual => "LessThanEqual"
  | .greaterThanEqual => "GreaterThanEqual"
  | .like => "Like"
  | .and => "And"
  | .or => "Or"
  | .oneOf => "In"
  | .noneOf => "NotIn"
  | .not => "Not"
  | .isNull => "IsNull"
  | .isNotNull => "IsNotNull"

end Operator

/-- An expression. -/
inductive Expr where
  | literal (value : Literal)
  /-- A column of the table bound to an alias. -/
  | column (tableAlias name : String)
  /-- A value bound to the query under a name. -/
  | parameter (name : String)
  | list (items : List Expr)
  /-- The text of a stored value. -/
  | toText (inner : Expr)
  /-- The place of the needle in the haystack, counted from one; zero where
  it does not occur. -/
  | locate (needle haystack : Expr)
  /-- Equality of two documents given as text. -/
  | sameDocument (left right : Expr)
  | apply (operator : Operator) (operands : List Expr)

instance : Inhabited Expr := ⟨.literal .null⟩

namespace Expr

/-- An operator between two expressions. -/
def binary (operator : Operator) (left right : Expr) : Expr := .apply operator [left, right]

/-- All of the operands; a single one stands for itself, none is true. -/
def allOf : List Expr → Expr
  | [] => .literal (.boolean true)
  | [e] => e
  | es => .apply .and es

/-- Any of the operands; a single one stands for itself, none is false. -/
def anyOf : List Expr → Expr
  | [] => .literal (.boolean false)
  | [e] => e
  | es => .apply .or es

/-- The contrary of an operand. -/
def negation (operand : Expr) : Expr := .apply .not [operand]

mutual

/-- The names of the parameters in an expression, in order. -/
def parameters : Expr → List String
  | .literal _ => []
  | .column _ _ => []
  | .parameter name => [name]
  | .list items => parametersOf items
  | .toText inner => parameters inner
  | .locate needle haystack => parameters needle ++ parameters haystack
  | .sameDocument left right => parameters left ++ parameters right
  | .apply _ operands => parametersOf operands

/-- The names of the parameters in expressions, in order. -/
def parametersOf : List Expr → List String
  | [] => []
  | e :: es => parameters e ++ parametersOf es

end

end Expr

end EntityQuery
