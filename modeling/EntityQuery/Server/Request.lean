/-
EntityQuery/Server/Request.lean

The body of a query request: a document, values of its variables, and the
name of the operation to run.

A body is read from left to right, and the first fault decides: text that is
no JSON, or JSON of another shape.  A body is an object with these members or
the list of them in order; members of other names are passed over, and a name
that comes twice is a fault of shape as soon as it has been read.
-/
import EntityQuery.Json.Skip

namespace EntityQuery

/-- A query request. -/
structure QueryRequest where
  document : String
  vars : Variables
  operationName : Option String

/-- What is wrong with a body. -/
inductive BodyFault where
  | notJson
  | wrongShape
deriving DecidableEq, Repr

namespace QueryRequest

/-- A reader of something at the beginning of a text. -/
abbrev PartReader (α : Type) := List Char → Except BodyFault (α × List Char)

/-- What a reader of JSON finds; where it finds nothing there is no JSON. -/
def orNotJson {α : Type} : Option α → Except BodyFault α
  | some a => .ok a
  | none => .error .notJson

/-! ### Parts -/

/-- The fault of a value that is not of the type asked for: a container at
once, any other value if it is a value at all. -/
def wrongType (text : List Char) : BodyFault :=
  match Json.skipSpace text with
  | '[' :: _ => .wrongShape
  | '{' :: _ => .wrongShape
  | text => if (Json.readAtom text).isSome then .wrongShape else .notJson

/-- A string. -/
def readText : PartReader String := fun text =>
  match Json.skipSpace text with
  | '"' :: rest => orNotJson (Json.readString rest)
  | text => .error (wrongType text)

/-- An object; one container encloses it. -/
def readVariables : PartReader Variables := fun text =>
  match Json.skipSpace text with
  | '{' :: rest => do
    match ← orNotJson (Json.readObject (Json.readValue (Json.maxDepth - 2)) rest) with
    | (.object members, rest) => return (members, rest)
    | (_, _) => throw .wrongShape
  | text => .error (wrongType text)

/-- Something or null. -/
def orNull {α : Type} (read : PartReader α) : PartReader (Option α) := fun text =>
  match Json.skipSpace text with
  | 'n' :: rest => (orNotJson (Json.after? ['u', 'l', 'l'] rest)).map fun rest => (none, rest)
  | text => (read text).map fun (a, rest) => (some a, rest)

/-- The text after a colon. -/
def afterColon (text : List Char) : Except BodyFault (List Char) :=
  orNotJson (Json.after? [':'] (Json.skipSpace text))

/-! ### Members -/

/-- The members read so far. -/
structure Draft where
  document : Option String
  vars : Option (Option Variables)
  operationName : Option (Option String)

/-- No member read. -/
def Draft.empty : Draft := ⟨none, none, none⟩

/-- The request of the members. -/
def Draft.finish (d : Draft) : Except BodyFault QueryRequest :=
  match d.document with
  | some document => .ok ⟨document, (d.vars.getD none).getD [], d.operationName.getD none⟩
  | none => .error .wrongShape

/-- Refuse a member that has been read before. -/
def once {α : Type} : Option α → Except BodyFault Unit
  | some _ => .error .wrongShape
  | none => .ok ()

/-- The member of a name, the text standing behind the name. -/
def readMember (d : Draft) (name : String) : PartReader Draft := fun text => do
  if name = "query" then
    once d.document
    let (document, rest) ← readText (← afterColon text)
    return ({ d with document := some document }, rest)
  else if name = "variables" then
    once d.vars
    let (vars, rest) ← orNull readVariables (← afterColon text)
    return ({ d with vars := some vars }, rest)
  else if name = "operationName" then
    once d.operationName
    let (operationName, rest) ← orNull readText (← afterColon text)
    return ({ d with operationName := some operationName }, rest)
  else
    let rest ← orNotJson (Json.skipValue (← afterColon text))
    return (d, rest)

/-- The members up to the closing brace, the text standing at a name. -/
def readMembers : Nat → Draft → PartReader QueryRequest
  | 0, _, _ => .error .notJson
  | fuel + 1, d, text => do
    let rest ← orNotJson (Json.after? ['"'] (Json.skipSpace text))
    let (name, rest) ← orNotJson (Json.readString rest)
    let (d, rest) ← readMember d name rest
    match Json.skipSpace rest with
    | ',' :: rest => readMembers fuel d rest
    | '}' :: rest => return (← d.finish, rest)
    | _ => throw .notJson

/-- A request as an object, after its opening brace. -/
def readObject : PartReader QueryRequest := fun text =>
  match Json.skipSpace text with
  | '}' :: _ => .error .wrongShape
  | text => readMembers text.length .empty text

/-! ### Lists -/

/-- What comes after an item: another item, or the end of the list. -/
def hasNext (text : List Char) : Except BodyFault (Option (List Char)) :=
  match Json.skipSpace text with
  | ',' :: rest =>
    match Json.skipSpace rest with
    | ']' :: _ => .error .notJson
    | rest => .ok (some rest)
  | ']' :: _ => .ok none
  | _ => .error .notJson

/-- An item that may be missing at the end of a list. -/
def readItem {α : Type} (read : PartReader (Option α)) : PartReader (Option α) := fun text => do
  match ← hasNext text with
  | some rest => read rest
  | none => return (none, text)

/-- A request as a list, after its opening bracket. -/
def readList : PartReader QueryRequest := fun text => do
  match Json.skipSpace text with
  | ']' :: _ => throw .wrongShape
  | text =>
    let (document, rest) ← readText text
    let (vars, rest) ← readItem (orNull readVariables) rest
    let (operationName, rest) ← readItem (orNull readText) rest
    let rest ← orNotJson (Json.after? [']'] (Json.skipSpace rest))
    return (⟨document, vars.getD [], operationName⟩, rest)

/-! ### Whole bodies -/

/-- A request at the beginning of a text. -/
def readFrom : PartReader QueryRequest := fun text =>
  match Json.skipSpace text with
  | '{' :: rest => readObject rest
  | '[' :: rest => readList rest
  | text => .error (wrongType text)

/-- The request of a body. -/
def read (body : String) : Except BodyFault QueryRequest := do
  let (request, rest) ← readFrom body.toList
  if (Json.skipSpace rest).isEmpty then return request else throw .notJson

end QueryRequest

end EntityQuery
