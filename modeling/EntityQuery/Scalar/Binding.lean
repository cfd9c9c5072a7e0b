/-
EntityQuery/Scalar/Binding.lean

Scalars and the classes of values that are bound to them.

A binding names a scalar, says to which family it belongs, how its values
lie in their column and how they go in and out.  A registry binds the value
classes that an entity model speaks of; the ordinary classes are bound from
the start, and a registration for a class replaces what the class was bound
to before.
-/
import EntityQuery.Keyed
import EntityQuery.Scalar.Coercion

namespace EntityQuery

/-! ### Bindings -/

/-- A scalar as the schema knows it. -/
structure ScalarBinding where
  name : String
  description : String
  kind : ScalarKind
  storage : Storage
  containment : Bool
  coercion : Coercion
deriving DecidableEq, Repr

namespace ScalarBinding

/-- A binding whose values are stored as their family is: payloads encoded,
others as they are. -/
def ofKind (name description : String) (kind : ScalarKind) (coercion : Coercion) :
    ScalarBinding :=
  ⟨name, description, kind, if kind = .payload then .encoded else .native, false, coercion⟩

/-- A scalar of plain values. -/
def plain (name description : String) (kind : ScalarKind) : ScalarBinding :=
  ofKind name description kind (.plain name kind)

/-- A scalar of documents, stored as JSON text. -/
def document (name description : String) : ScalarBinding :=
  ofKind name description .payload .document

/-- The same scalar, with equality of whole documents as an operator. -/
def withContainment (b : ScalarBinding) : ScalarBinding := { b with containment := true }

/-- The same scalar in another storage. -/
def withStorage (b : ScalarBinding) (storage : Storage) : ScalarBinding :=
  { b with storage := storage }

/-- Whether the scalar is a payload. -/
def isPayload (b : ScalarBinding) : Bool := b.kind = .payload

/-- Whether fields of the scalar can be filtered by an operator. -/
def supports (b : ScalarBinding) : FilterOperator → Bool
  | .eq => true
  | .ne => true
  | .gt => b.kind.isOrdered
  | .ge => b.kind.isOrdered
  | .lt => b.kind.isOrdered
  | .le => b.kind.isOrdered
  | .oneOf => !b.isPayload
  | .noneOf => !b.isPayload
  | .isNull => true
  | .notNull => true
  | .like => b.kind = .text
  | .locate => b.kind = .text || b.isPayload
  | .contains => b.isPayload && b.containment

/-- The operators for fields of the scalar, in the order of the schema. -/
def operators (b : ScalarBinding) : List FilterOperator := FilterOperator.all.filter b.supports

theorem mem_operators {b : ScalarBinding} {op : FilterOperator} :
    op ∈ b.operators ↔ b.supports op = true := by
  simp only [operators, List.mem_filter]
  exact ⟨fun h => h.2, fun h => ⟨by cases op <;> decide, h⟩⟩

/-- The answer for a stored value; null is answered as null. -/
def output (b : ScalarBinding) (stored : Json) : Except CoercionError Json :=
  if stored.isNull then .ok .null else b.coercion.output stored

end ScalarBinding

/-! ### Ordinary classes -/

/-- The classes that are bound from the start, in the order of their
names. -/
def ordinaryBindings : Keyed ScalarBinding :=
  let bigDecimal := ScalarBinding.plain "BigDecimal" "Arbitrary precision decimal" .float
  let boolean := ScalarBinding.plain "Boolean" "Built-in Boolean" .boolean
  let date := ScalarBinding.plain "Date" "Calendar date (YYYY-MM-DD)" .date
  let dateTime := ScalarBinding.plain "DateTime" "Date and time (RFC 3339)" .dateTime
  let float := ScalarBinding.plain "Float" "Built-in Float" .float
  let id := ScalarBinding.plain "ID" "Built-in ID" .text
  let int := ScalarBinding.plain "Int" "Built-in Int" .integer
  let long := ScalarBinding.plain "Long" "Long type" .integer
  let string := ScalarBinding.plain "String" "Built-in String" .text
  [("BigDecimal", bigDecimal), ("Boolean", boolean), ("Date", date), ("DateTime", dateTime),
   ("Double", float), ("Float", float), ("ID", id), ("Instant", dateTime), ("Int", int),
   ("Integer", int), ("LocalDate", date), ("LocalDateTime", dateTime), ("Long", long),
   ("Short", int), ("String", string), ("Text", string)]

/-! ### Registries -/

/-- The bindings of value classes beside the ordinary ones. -/
structure ScalarRegistry where
  registered : Keyed ScalarBinding
deriving Repr

namespace ScalarRegistry

/-- The registry of the ordinary classes alone. -/
def empty : ScalarRegistry := ⟨[]⟩

/-- Bind a class, in place of what it was bound to. -/
def register (r : ScalarRegistry) (valueClass : String) (binding : ScalarBinding) :
    ScalarRegistry :=
  ⟨Keyed.put valueClass binding r.registered⟩

/-- The binding of a class. -/
def resolve (r : ScalarRegistry) (valueClass : String) : Option ScalarBinding :=
  (Keyed.find? r.registered valueClass).or (Keyed.find? ordinaryBindings valueClass)

/-- Pairs in the order of their names. -/
def sortedByName (m : Keyed ScalarBinding) : Keyed ScalarBinding :=
  m.mergeSort fun a b => a.1 ≤ b.1

/-- The bindings of different names that the registry reaches: registered
classes before ordinary ones, each in the order of the class names. -/
def bindings (r : ScalarRegistry) : List ScalarBinding :=
  (sortedByName r.registered ++ ordinaryBindings).foldl
    (fun seen pair =>
      if seen.any (·.name = pair.2.name) then seen else seen ++ [pair.2]) []

theorem resolve_register_self (r : ScalarRegistry) (c : String) (b : ScalarBinding) :
    (r.register c b).resolve c = some b := by
  simp [resolve, register]

theorem resolve_register_of_ne (r : ScalarRegistry) {c d : String} (b : ScalarBinding)
    (h : d ≠ c) : (r.register c b).resolve d = r.resolve d := by
  simp [resolve, register, Keyed.find?_put_of_ne b r.registered h]

end ScalarRegistry

end EntityQuery
