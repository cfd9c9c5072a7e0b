/-
EntityQuery/Notated.lean

Notations for configuration: data formats whose values can be read as texts,
lists and records.  Formats differ in what they take for a missing text or an
empty list, so each decides that for itself.
-/
import EntityQuery.Json.Basic

namespace EntityQuery

/-- A notation for configuration.  Every method refuses a value that is not
of its form. -/
class Notated (α : Type) where
  /-- A text. -/
  text? : α → Option String
  /-- A text that may be missing. -/
  optionalText? : α → Option (Option String)
  /-- A list. -/
  list? : α → Option (List α)
  /-- One of several words. -/
  word? : α → Option String
  /-- The known members of a record, given their names in order. -/
  record? : List String → α → Option (List (String × α))

namespace Notated

/-- A text, an absent member counting as a missing one. -/
def optionalMember {α : Type} [Notated α] (members : List (String × α)) (name : String) :
    Option (Option String) :=
  match members.lookup name with
  | some value => optionalText? value
  | none => some none

/-- A text that has to be there. -/
def textMember {α : Type} [Notated α] (members : List (String × α)) (name : String) :
    Option String :=
  (members.lookup name).bind text?

/-- A list of items, an absent member counting as the empty one. -/
def listMember {α β : Type} [Notated α] (item : α → Option β) (members : List (String × α))
    (name : String) : Option (List β) :=
  match members.lookup name with
  | some value => (list? value).bind fun items => items.mapM item
  | none => some []

end Notated

/-- In JSON a record may also be the list of its members in order. -/
instance : Notated Json where
  text?
    | .string s => some s
    | _ => none
  optionalText?
    | .string s => some (some s)
    | .null => some none
    | _ => none
  list?
    | .array items => some items
    | _ => none
  word?
    | .string s => some s
    | .object [(s, .null)] => some s
    | _ => none
  record? names
    | .object members => some (members.filter fun m => names.contains m.1)
    | .array items => if items.length ≤ names.length then some (names.zip items) else none
    | _ => none

end EntityQuery
