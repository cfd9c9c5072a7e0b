/-
EntityQuery/Document/Describe.lean

One line about why a document was refused.

Of the complaints of a trail the first one with a reason of its own is
reported, or the first at all; its place in the document is found from the
length of the text that was left.  Lines and columns count from one, columns
in characters, and the beginning of what was left is quoted.
-/
import EntityQuery.Document.Reply
import EntityQuery.Document.Token
import EntityQuery.Text.Blank

namespace EntityQuery.Document

/-! ### Places -/

/-- The number of bytes of a text. -/
def byteLength (text : List Char) : Nat :=
  text.foldl (fun n c => n + c.utf8Size) 0

/-- The characters of a text that lie within its first `bytes` bytes. -/
def takeBytes (bytes : Nat) : List Char → List Char
  | [] => []
  | c :: rest => if c.utf8Size ≤ bytes then c :: takeBytes (bytes - c.utf8Size) rest else []

/-- The part of a document before the text that was left. -/
def consumed (source rest : List Char) : List Char :=
  takeBytes (byteLength source - byteLength rest) source

/-- The line at the end of a text, counted from one. -/
def lineAfter (text : List Char) : Nat := text.count '\n' + 1

/-- The column at the end of a text, counted from one. -/
def columnAfter (text : List Char) : Nat :=
  (text.reverse.takeWhile (· ≠ '\n')).length + 1

/-! ### The report -/

namespace Complaint

/-- Whether the complaint says more than that something failed. -/
def isSpecific (c : Complaint) : Bool :=
  (stripWord unknownReason.toList c.reason.toList).isNone

/-- The report of a complaint about a document. -/
def report (source : List Char) (c : Complaint) : String :=
  let before := consumed source c.rest
  let near := String.ofList (Text.trim (c.rest.take 20))
  let place :=
    c.reason ++ " at line " ++ toString (lineAfter before) ++ ", column " ++
      toString (columnAfter before)
  if near.isEmpty then place ++ " (end of input)" else place ++ " near '" ++ near ++ "'"

end Complaint

namespace Trail

/-- The complaint that is reported. -/
def reported? (trail : Trail) : Option Complaint :=
  (trail.find? Complaint.isSpecific).or trail.head?

/-- The report of a trail about a document. -/
def describe (trail : Trail) (source : String) : String :=
  match reported? trail with
  | some c => c.report source.toList
  | none => "Syntax error"

/-- All complaints, one on each line. -/
def listing (trail : Trail) : String :=
  trail.foldl (fun lines c => lines ++ c.reason ++ ": " ++ String.ofList c.rest ++ "\n") ""

end Trail

end EntityQuery.Document
