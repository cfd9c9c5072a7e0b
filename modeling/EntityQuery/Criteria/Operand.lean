/-
EntityQuery/Criteria/Operand.lean

Values of criteria as they are written, with variables still in them.
-/
import EntityQuery.Document.Basic
import EntityQuery.Json.Basic

namespace EntityQuery

/-- Why a root field cannot be planned. -/
inductive PlanError where
  | unknownRootField (name : String)
  | unknownField (entity field : String)
  | unboundVariable (name : String)
  | unsupportedOperator (field operator scalar : String)
  | invalidValue (field message : String)
  | invalidSelection (message : String)
  | duplicateResponseKey (key : String)
  | unknownArgument (field argument : String)
deriving DecidableEq, Repr

/-- The wording of an error. -/
def PlanError.message : PlanError → String
  | .unknownRootField name => "Unknown root field '" ++ name ++ "'"
  | .unknownField entity field => "Unknown field '" ++ field ++ "' on entity '" ++ entity ++ "'"
  | .unboundVariable name => "Variable '$" ++ name ++ "' is not defined"
  | .unsupportedOperator field operator scalar =>
    "Operator '" ++ operator ++ "' is not supported for field '" ++ field ++ "' of type '" ++
      scalar ++ "'"
  | .invalidValue field message => "Invalid value for '" ++ field ++ "': " ++ message
  | .invalidSelection message => "Invalid selection: " ++ message
  | .duplicateResponseKey key =>
    "Response key '" ++ key ++ "' is used by more than one root field"
  | .unknownArgument field argument =>
    "Unknown argument '" ++ argument ++ "' on field '" ++ field ++ "'"

/-- A value with variables in it.  A constant is a value that is neither a
list nor an object. -/
inductive Operand where
  | variable (name : String)
  | constant (value : Json)
  | list (items : List Operand)
  | object (entries : List (String × Operand))

instance : Inhabited Operand := ⟨.constant .null⟩

namespace Operand

/-! ### Where operands come from -/

mutual

/-- A value of a document.  A bare word stands for its text. -/
def ofValue : Document.Value → Operand
  | .variable name => .variable name
  | .int i => .constant (.ofInt i)
  | .float x => .constant (.ofBinary64 x)
  | .string s => .constant (.string s)
  | .boolean b => .constant (.bool b)
  | .null => .constant .null
  | .enum name => .constant (.string name)
  | .list items => .list (ofValues items)
  | .object entries => .object (ofEntries entries)

/-- The values of a list. -/
def ofValues : List Document.Value → List Operand
  | [] => []
  | v :: vs => ofValue v :: ofValues vs

/-- The entries of an object. -/
def ofEntries : List (String × Document.Value) → List (String × Operand)
  | [] => []
  | (name, v) :: vs => (name, ofValue v) :: ofEntries vs

end

mutual

/-- A JSON value. -/
def ofJson : Json → Operand
  | .array items => .list (ofItems items)
  | .object members => .object (ofMembers members)
  | .null => .constant .null
  | .bool b => .constant (.bool b)
  | .number n => .constant (.number n)
  | .string s => .constant (.string s)

/-- The items of an array. -/
def ofItems : List Json → List Operand
  | [] => []
  | j :: js => ofJson j :: ofItems js

/-- The members of an object. -/
def ofMembers : List (String × Json) → List (String × Operand)
  | [] => []
  | (name, j) :: js => (name, ofJson j) :: ofMembers js

end

/-! ### Variables -/

mutual

/-- Whether a variable occurs in the operand. -/
def hasVariables : Operand → Bool
  | .variable _ => true
  | .constant _ => false
  | .list items => anyHasVariables items
  | .object entries => anyEntryHasVariables entries

/-- Whether a variable occurs in one of the operands. -/
def anyHasVariables : List Operand → Bool
  | [] => false
  | o :: os => hasVariables o || anyHasVariables os

/-- Whether a variable occurs in one of the entries. -/
def anyEntryHasVariables : List (String × Operand) → Bool
  | [] => false
  | (_, o) :: os => hasVariables o || anyEntryHasVariables os

end

/-- The value of a variable. -/
def variableValue (vars : Variables) (name : String) : Except PlanError Json :=
  match Keyed.find? vars name with
  | some value => .ok value
  | none => .error (.unboundVariable name)

mutual

/-- The value of the operand, with the values of its variables put in. -/
def resolve (vars : Variables) : Operand → Except PlanError Json
  | .variable name => variableValue vars name
  | .constant value => .ok value
  | .list items => do return .array (← resolveItems vars items)
  | .object entries => do return .object (Keyed.ofPairs (← resolveEntries vars entries))

/-- The values of operands. -/
def resolveItems (vars : Variables) : List Operand → Except PlanError (List Json)
  | [] => .ok []
  | o :: os => do
    let j ← resolve vars o
    let js ← resolveItems vars os
    return j :: js

/-- The values of entries, repeated names included. -/
def resolveEntries (vars : Variables) :
    List (String × Operand) → Except PlanError (List (String × Json))
  | [] => .ok []
  | (name, o) :: os => do
    let j ← resolve vars o
    let js ← resolveEntries vars os
    return (name, j) :: js

end

/-! ### Looking through a variable -/

/-- The entries of an object, which may be given by a variable; `context`
names the place in a message. -/
def entries (vars : Variables) (context : String) :
    Operand → Except PlanError (List (String × Operand))
  | .object entries => .ok entries
  | .variable name => do
    match ← variableValue vars name with
    | .object members => return ofMembers members
    | _ => throw (.invalidValue context "expected an input object")
  | _ => .error (.invalidValue context "expected an input object")

/-- The items of a list, which may be given by a variable; none if the
operand is no list. -/
def items? (vars : Variables) : Operand → Except PlanError (Option (List Operand))
  | .list items => .ok (some items)
  | .variable name => do
    match ← variableValue vars name with
    | .array items => return some (ofItems items)
    | _ => return none
  | _ => .ok none

end Operand

end EntityQuery
