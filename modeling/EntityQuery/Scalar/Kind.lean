/-
EntityQuery/Scalar/Kind.lean

Families of scalars and the filter operators they offer.

A scalar is text, a number, a truth value, a date, a moment, or a payload: a
document whose shape is only known when it is there.  The family decides
which operators a field of the scalar can be filtered by.
-/

namespace EntityQuery

/-- The family of a scalar. -/
inductive ScalarKind where
  | text
  | integer
  | float
  | boolean
  | date
  | dateTime
  | payload
deriving DecidableEq, Repr

/-- Whether values of the family are compared by order. -/
def ScalarKind.isOrdered : ScalarKind → Bool
  | .boolean => false
  | .payload => false
  | _ => true

/-- How values lie in their column: as they are, or as JSON text. -/
inductive Storage where
  | native
  | encoded
deriving DecidableEq, Repr

/-! ### Filter operators -/

/-- The operators of field criteria. -/
inductive FilterOperator where
  | eq
  | ne
  | gt
  | ge
  | lt
  | le
  | oneOf
  | noneOf
  | isNull
  | notNull
  | like
  | locate
  | contains
deriving DecidableEq, Repr

namespace FilterOperator

/-- All operators, in the order in which a schema lists them. -/
def all : List FilterOperator :=
  [.eq, .ne, .gt, .ge, .lt, .le, .oneOf, .noneOf, .isNull, .notNull, .like, .locate, .contains]

/-- The word for an operator. -/
def token : FilterOperator → String
  | .eq => "EQ"
  | .ne => "NE"
  | .gt => "GT"
  | .ge => "GE"
  | .lt => "LT"
  | .le => "LE"
  | .oneOf => "IN"
  | .noneOf => "NIN"
  | .isNull => "IS_NULL"
  | .notNull => "NOT_NULL"
  | .like => "LIKE"
  | .locate => "LOCATE"
  | .contains => "CONTAINS"

/-- The operator of a word. -/
def ofToken? (word : String) : Option FilterOperator := all.find? (·.token = word)

/-- Operators whose operand is a list of candidates. -/
def takesList : FilterOperator → Bool
  | .oneOf => true
  | .noneOf => true
  | _ => false

/-- Operators whose operand is a switch and no value to compare with. -/
def takesFlag : FilterOperator → Bool
  | .isNull => true
  | .notNull => true
  | _ => false

theorem ofToken?_token (op : FilterOperator) : ofToken? op.token = some op := by
  cases op <;> decide

end FilterOperator

/-- Whether a key of criteria has the shape of an operator word: more than
one character, all of them capital letters and underscores. -/
def isOperatorToken (key : String) : Bool :=
  1 < key.utf8ByteSize && key.toList.all fun c => c.isUpper || c = '_'

end EntityQuery
