/-
EntityQuery/Sql/Substitute.lean

Putting parameter values into SQL text.

A placeholder is a dollar sign and the longest run of alphanumeric
characters and underscores after it; a dollar sign with no such run stands
for itself.  What is put in is not looked at again.
-/
import EntityQuery.Sql.Render
import EntityQuery.Text.Alphanumeric

namespace EntityQuery

/-- Why parameters cannot be put in. -/
inductive SubstitutionError where
  | missingParameter (name : String)
deriving DecidableEq, Repr

/-- The wording of an error. -/
def SubstitutionError.message : SubstitutionError → String
  | .missingParameter name => "Missing required parameter: " ++ name

namespace Sql

/-- A character that may stand in the name of a placeholder. -/
def isPlaceholderPart (c : Char) : Bool := Text.isAlphanumeric c || c = '_'

/-- A piece of SQL text. -/
inductive Piece where
  | character (c : Char)
  | placeholder (name : List Char)
deriving DecidableEq, Repr

/-- The pieces of a text; `reading` holds the name of a placeholder that is
being read. -/
def piecesFrom (reading : Option (List Char)) : List Char → List Piece
  | [] =>
    match reading with
    | none => []
    | some [] => [.character '$']
    | some name => [.placeholder name]
  | c :: rest =>
    match reading with
    | none => if c = '$' then piecesFrom (some []) rest else .character c :: piecesFrom none rest
    | some name =>
      if isPlaceholderPart c then piecesFrom (some (name ++ [c])) rest
      else
        let done := if name.isEmpty then Piece.character '$' else .placeholder name
        done :: if c = '$' then piecesFrom (some []) rest
          else .character c :: piecesFrom none rest

/-- The pieces of a text. -/
def pieces (text : List Char) : List Piece := piecesFrom none text

/-- What a piece becomes. -/
def fill (parameters : Parameters) : Piece → Except SubstitutionError (List Char)
  | .character c => .ok [c]
  | .placeholder name =>
    match Keyed.find? parameters (String.ofList name) with
    | some value => .ok (constant value)
    | none => .error (.missingParameter (String.ofList name))

/-- A text with constants in place of its placeholders. -/
def substitute (text : String) (parameters : Parameters) : Except SubstitutionError String := do
  let filled ← (pieces text.toList).mapM (fill parameters)
  return String.ofList filled.flatten

/-- The SQL of a query with all its values. -/
def statement (q : Query) : Except SubstitutionError String :=
  substitute (template q) q.parameters

end Sql

end EntityQuery
