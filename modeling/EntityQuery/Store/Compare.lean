/-
EntityQuery/Store/Compare.lean

The order of stored values.

Numbers are compared as integers where both are integers of 64 bits with a
sign, and as doubles otherwise; strings by their bytes; a truth value beside
an integer counts as `0` or `1`.  Other values are only ever equal.  In a
sort, nulls come last and values that have no order count as equal.
-/
import EntityQuery.Json.Basic

namespace EntityQuery.Store

/-- The order of two numbers. -/
def compareNumbers (m n : JsonNumber) : Ordering :=
  match m.toInt64?, n.toInt64? with
  | some i, some j => compare i j
  | _, _ => m.toBinary64.order n.toBinary64

/-- A truth value as an integer. -/
def flagValue (b : Bool) : Int := if b then 1 else 0

/-- The order of two values, if they have one. -/
def compareValues : Json → Json → Option Ordering
  | .number m, .number n => some (compareNumbers m n)
  | .string s, .string t => some (compare s t)
  | .bool a, .bool b => some (compare (flagValue a) (flagValue b))
  | .bool a, .number n => n.toInt64?.map fun i => compare (flagValue a) i
  | .number n, .bool b => n.toInt64?.map fun i => compare i (flagValue b)
  | left, right => if left.same right then some .eq else none

/-- The order of two values in a sort. -/
def sortOrder (left right : Json) : Ordering :=
  match left.isNull, right.isNull with
  | true, true => .eq
  | true, false => .gt
  | false, true => .lt
  | false, false => (compareValues left right).getD .eq

end EntityQuery.Store
