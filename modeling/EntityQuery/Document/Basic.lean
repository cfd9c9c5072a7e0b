/-
EntityQuery/Document/Basic.lean

Query documents: one read operation with its variable definitions and its
tree of requested fields.
-/
import EntityQuery.Number.Binary64

namespace EntityQuery.Document

/-- An input value as it is written in a document.  The entries of an object
keep their order, repeated names included. -/
inductive Value where
  | variable (name : String)
  | int (i : Int)
  | float (x : Binary64)
  | string (s : String)
  | boolean (b : Bool)
  | null
  | enum (name : String)
  | list (items : List Value)
  | object (entries : List (String × Value))

instance : Inhabited Value := ⟨.null⟩

/-- The type of a variable. -/
inductive TypeRef where
  | named (name : String)
  | list (item : TypeRef)
  | nonNull (inner : TypeRef)
deriving DecidableEq

namespace TypeRef

/-- Whether the type excludes null. -/
def isNonNull : TypeRef → Bool
  | .nonNull _ => true
  | _ => false

/-- The name inside all lists and non-null marks. -/
def baseName : TypeRef → String
  | .named name => name
  | .list item => item.baseName
  | .nonNull inner => inner.baseName

/-- The type as it is written. -/
def text : TypeRef → String
  | .named name => name
  | .list item => "[" ++ item.text ++ "]"
  | .nonNull inner => inner.text ++ "!"

end TypeRef

/-- A variable with its type and, if it has one, the value it takes when the
request gives none. -/
structure VariableDefinition where
  name : String
  type : TypeRef
  default : Option Value

/-- A requested field.  A leaf has no sub-selection. -/
inductive Field where
  | mk (label : Option String) (name : String) (arguments : List (String × Value))
      (selection : List Field)

namespace Field

/-- The name under which the field asks to be answered, if it gives one. -/
def label : Field → Option String
  | .mk a _ _ _ => a

/-- The name of the field. -/
def name : Field → String
  | .mk _ n _ _ => n

/-- The arguments in order, repeated names included. -/
def arguments : Field → List (String × Value)
  | .mk _ _ as _ => as

/-- The fields requested below. -/
def selection : Field → List Field
  | .mk _ _ _ fs => fs

/-- The name under which the field is answered. -/
def responseKey (f : Field) : String := f.label.getD f.name

/-- The first argument of a name. -/
def argument? (f : Field) (name : String) : Option Value := f.arguments.lookup name

end Field

/-- A read operation. -/
structure Operation where
  name : Option String
  definitions : List VariableDefinition
  selection : List Field

end EntityQuery.Document
