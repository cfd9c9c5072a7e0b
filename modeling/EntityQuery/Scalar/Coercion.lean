/-
EntityQuery/Scalar/Coercion.lean

How the values of a scalar go in and out.

A coercion takes a value written in a document (`Coercion.literal`) or given
by a variable (`Coercion.input`) to the value that is compared and stored,
and a stored value to the one that is answered (`Coercion.output`).
`Coercion.stored` is the form in the column, `Coercion.needle` the text that
a substring search looks for.

The plain coercion checks values against the family of the scalar.  It is
strict about literals; variables and stored values may also give numbers and
truth values as text.  The document coercion lets every value pass and keeps
it in its column as JSON text.

These two are the coercions that the program brings along, and the type is
closed over them: every scalar of a service is bound to one of the two.
Coercions that a caller of the library brings are left out.  What is proved of
bindings mostly goes through the five functions; the lemmas that split the two
cases, such as `Predicate.coerce_ne_null`, are what another coercion would have
to add to.
-/
import EntityQuery.Json.Read
import EntityQuery.Json.Text
import EntityQuery.Scalar.Calendar
import EntityQuery.Scalar.Kind

namespace EntityQuery

/-- Why a value is no value of a scalar. -/
inductive CoercionError where
  | unexpectedType (scalar expected found : String)
  | invalidFormat (scalar value reason : String)
deriving DecidableEq, Repr

/-- The wording of an error. -/
def CoercionError.message : CoercionError → String
  | .unexpectedType scalar expected found =>
    "Expected " ++ expected ++ " for scalar '" ++ scalar ++ "' but got " ++ found
  | .invalidFormat scalar value reason =>
    "Invalid " ++ scalar ++ " value '" ++ value ++ "': " ++ reason

/-- A way of taking the values of a scalar in and out, of those that come with
the program. -/
inductive Coercion where
  | plain (scalar : String) (kind : ScalarKind)
  | document
deriving DecidableEq, Repr

namespace Coercion

/-! ### Checking against a family -/

/-- A value of the wrong type. -/
def unexpected (scalar expected : String) (found : Json) : Except CoercionError Json :=
  .error (.unexpectedType scalar expected found.typeName)

/-- Text as text; the scalar `ID` and lenient places also take numbers. -/
def checkText (scalar : String) (lenient : Bool) : Json → Except CoercionError Json
  | .string s => .ok (.string s)
  | .number n =>
    if lenient || scalar = "ID" then .ok (.string (String.ofList (Json.numberText n)))
    else unexpected scalar "string" (.number n)
  | other => unexpected scalar "string" other

/-- An integer; lenient places also take its digits. -/
def checkInteger (scalar : String) (lenient : Bool) : Json → Except CoercionError Json
  | .number (.int i) => .ok (.ofInt i)
  | .string s =>
    if lenient then
      match IntegerRange.int64.read (Text.trimmed s) with
      | .ok i => .ok (.ofInt i)
      | .error fault => .error (.invalidFormat scalar s fault.message)
    else unexpected scalar "integer" (.string s)
  | other => unexpected scalar "integer" other

/-- A number; lenient places also take its text. -/
def checkFloat (scalar : String) (lenient : Bool) : Json → Except CoercionError Json
  | .number n => .ok (.number n)
  | .string s =>
    if lenient then
      match Binary64.read (Text.trimmed s) with
      | .ok (some x) =>
        if h : x.isFinite then .ok (.number (.float x h))
        else .error (.invalidFormat scalar s "non-finite float")
      | .ok none => .error (.invalidFormat scalar s "non-finite float")
      | .error fault => .error (.invalidFormat scalar s fault.message)
    else unexpected scalar "number" (.string s)
  | other => unexpected scalar "number" other

/-- A truth value; lenient places also take its word. -/
def checkBoolean (scalar : String) (lenient : Bool) : Json → Except CoercionError Json
  | .bool b => .ok (.bool b)
  | .string s =>
    if lenient then
      if s = "true" then .ok (.bool true)
      else if s = "false" then .ok (.bool false)
      else .error (.invalidFormat scalar s "expected true or false")
    else unexpected scalar "boolean" (.string s)
  | other => unexpected scalar "boolean" other

/-- The text of a date, kept as it is written. -/
def checkDate (scalar : String) : Json → Except CoercionError Json
  | .string s =>
    match Date.read s with
    | .ok _ => .ok (.string s)
    | .error fault => .error (.invalidFormat scalar s fault.message)
  | other => unexpected scalar "date string" other

/-- The text of a moment, kept as it is written. -/
def checkDateTime (scalar : String) : Json → Except CoercionError Json
  | .string s =>
    match Moment.read s with
    | .ok _ => .ok (.string s)
    | .error fault => .error (.invalidFormat scalar s fault.message)
  | other => unexpected scalar "date-time string" other

/-- A value of a family; null belongs to every one. -/
def check (scalar : String) (kind : ScalarKind) (lenient : Bool) (value : Json) :
    Except CoercionError Json :=
  if value.isNull then .ok .null
  else
    match kind with
    | .text => checkText scalar lenient value
    | .integer => checkInteger scalar lenient value
    | .float => checkFloat scalar lenient value
    | .boolean => checkBoolean scalar lenient value
    | .date => checkDate scalar value
    | .dateTime => checkDateTime scalar value
    | .payload => .ok value

/-! ### The contract -/

/-- The value of a literal of a document. -/
def literal : Coercion → Json → Except CoercionError Json
  | .plain scalar kind, value => check scalar kind false value
  | .document, value => .ok value

/-- The value of a variable. -/
def input : Coercion → Json → Except CoercionError Json
  | .plain scalar kind, value => check scalar kind true value
  | .document, value => .ok value

/-- A truth value that the store holds as `0` or `1`. -/
def flagOutput (scalar : String) (n : JsonNumber) : Except CoercionError Json :=
  if n.toInt64? = some 0 then .ok (.bool false)
  else if n.toInt64? = some 1 then .ok (.bool true)
  else .error (.invalidFormat scalar (String.ofList (Json.numberText n)) "expected 0 or 1")

/-- The answer for a stored value. -/
def output : Coercion → Json → Except CoercionError Json
  | .plain scalar .boolean, .number n => flagOutput scalar n
  | .plain scalar kind, value => check scalar kind true value
  | .document, .string s => .ok ((Json.read? s).getD (.string s))
  | .document, value => .ok value

/-- The form of a value in its column. -/
def stored : Coercion → Json → Json
  | .plain _ _, value => value
  | .document, value => .string value.text

/-- The text of a value that a substring search looks for: a string itself,
or the JSON text of anything else. -/
def needle : Coercion → Json → String
  | _, .string s => s
  | _, value => value.text

end Coercion

end EntityQuery
