/-
EntityQuery/Json/Basic.lean

JSON values.

A number is an integer or a finite double precision number, and the two are
different values even when they are equal in size: `1` is not `1.0`.  The
members of an object keep their order; equality of documents does not look
at it (`Json.same`).
-/
import EntityQuery.Keyed
import EntityQuery.Number.Binary64
import EntityQuery.Number.IntegerText

namespace EntityQuery

/-- A number of a JSON document; a double in it is finite. -/
inductive JsonNumber where
  | int (i : Int)
  | float (x : Binary64) (finite : x.isFinite = true)
deriving DecidableEq

/-- A JSON value. -/
inductive Json where
  | null
  | bool (b : Bool)
  | number (n : JsonNumber)
  | string (s : String)
  | array (items : List Json)
  | object (members : List (String × Json))

instance : Inhabited Json := ⟨.null⟩

namespace JsonNumber

/-- The integer, if the number is one of 64 bits with a sign. -/
def toInt64? : JsonNumber → Option Int
  | .int i => if IntegerRange.int64.has i then some i else none
  | .float _ _ => none

/-- The number as a double, rounded if it has to be. -/
def toBinary64 : JsonNumber → Binary64
  | .int i => .ofInt i
  | .float x _ => x

/-- Equality: integers by value, doubles with one zero, never across. -/
def same : JsonNumber → JsonNumber → Bool
  | .int i, .int j => i == j
  | .float x _, .float y _ => x.place == y.place
  | _, _ => false

end JsonNumber

namespace Json

/-! ### Building and inspecting -/

/-- An integer. -/
def ofInt (i : Int) : Json := .number (.int i)

/-- A double; one that is not finite has no JSON form and becomes null. -/
def ofBinary64 (x : Binary64) : Json :=
  if h : x.isFinite then .number (.float x h) else .null

/-- Whether the value is null. -/
def isNull : Json → Bool
  | .null => true
  | _ => false

/-- The word for the type of a value. -/
def typeName : Json → String
  | .null => "null"
  | .bool _ => "boolean"
  | .number _ => "number"
  | .string _ => "string"
  | .array _ => "list"
  | .object _ => "object"

/-! ### Equality of documents -/

mutual

/-- Equality of documents: lists in order, objects member by member whatever
their order. -/
def same : Json → Json → Bool
  | .null, .null => true
  | .bool a, .bool b => a == b
  | .number m, .number n => m.same n
  | .string s, .string t => s == t
  | .array xs, .array ys => sameItems xs ys
  | .object xs, .object ys => xs.length == ys.length && sameMembers xs ys
  | _, _ => false

/-- Lists of the same length with equal items. -/
def sameItems : List Json → List Json → Bool
  | [], [] => true
  | x :: xs, y :: ys => same x y && sameItems xs ys
  | _, _ => false

/-- Every member on the left has an equal one of its name on the right. -/
def sameMembers : List (String × Json) → List (String × Json) → Bool
  | [], _ => true
  | (name, x) :: xs, ys =>
    (match Keyed.find? ys name with
      | some y => same x y
      | none => false) && sameMembers xs ys

end

/-! ### Small laws -/

@[simp] theorem isNull_null : isNull .null = true := rfl

theorem isNull_iff {j : Json} : j.isNull = true ↔ j = .null := by
  cases j <;> simp [isNull]

theorem isNull_eq_false_iff {j : Json} : j.isNull = false ↔ j ≠ .null := by
  cases j <;> simp [isNull]

end Json

/-- A row of a table or of a result: a value under each column name. -/
abbrev Row := Keyed Json

/-- Values of variables by name. -/
abbrev Variables := Keyed Json

end EntityQuery
