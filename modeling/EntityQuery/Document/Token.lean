/-
EntityQuery/Document/Token.lean

Tokens of query documents: names, punctuation, keywords, and the text
between tokens that means nothing.

Spaces, tabs, line ends, commas and comments (from `#` to the end of the
line) may stand around every token.
-/
import EntityQuery.Document.Reply
import EntityQuery.Text.Alphanumeric

namespace EntityQuery.Document

/-! ### Ignored text -/

/-- The blanks between tokens. -/
def isSpace (c : Char) : Bool := c = ' ' || c = '\t' || c = '\r' || c = '\n'

/-- The text after leading ignored text; `comment` tells that it stands
inside a comment. -/
def skipIgnoredFrom (comment : Bool) : List Char → List Char
  | [] => []
  | c :: rest =>
    if comment then
      if c = '\n' then skipIgnoredFrom false rest else skipIgnoredFrom true rest
    else if isSpace c || c = ',' then skipIgnoredFrom false rest
    else if c = '#' then skipIgnoredFrom true rest
    else c :: rest

/-- The text after leading ignored text. -/
def skipIgnored (text : List Char) : List Char := skipIgnoredFrom false text

/-- A parser with ignored text before and after it. -/
def token {α : Type} (p : Parser α) : Parser α := fun input =>
  (p (skipIgnored input)).bind fun value rest => .ok value (skipIgnored rest)

/-! ### Characters and names -/

/-- One given character. -/
def char (c : Char) : Parser Char
  | d :: rest => if d = c then .ok c rest else Parser.fail (d :: rest)
  | [] => Parser.fail []

/-- A punctuation character with ignored text around it. -/
def punct (c : Char) : Parser Char := token (char c)

/-- A character that may begin a name. -/
def isNameStart (c : Char) : Bool := c.isAlpha || c = '_'

/-- A character that may follow in a name. -/
def isNamePart (c : Char) : Bool := c.isAlphanum || c = '_'

/-- A name: a letter or underscore, then letters, digits and underscores, all
of ASCII. -/
def name : Parser String
  | c :: rest =>
    if isNameStart c then
      .ok (String.ofList (c :: rest.takeWhile isNamePart)) (rest.dropWhile isNamePart)
    else .soft [⟨c :: rest, unknownReason⟩, ⟨c :: rest, appendedReason⟩]
  | [] => .soft [⟨[], unknownReason⟩, ⟨[], appendedReason⟩]

/-! ### Keywords -/

/-- The rest of a text after a given word, if it begins with it. -/
def stripWord : List Char → List Char → Option (List Char)
  | [], text => some text
  | _ :: _, [] => none
  | w :: ws, c :: text => if w = c then stripWord ws text else none

/-- Whether a text begins with a character that would make a keyword before
it a longer word. -/
def continuesWord : List Char → Bool
  | [] => false
  | c :: _ => Text.isAlphanumeric c || c = '_'

/-- A keyword that does not run into a longer word. -/
def keyword (word : String) : Parser Unit := token fun input =>
  match stripWord word.toList input with
  | some rest => if continuesWord rest then Parser.fail rest else .ok () rest
  | none => Parser.fail input

end EntityQuery.Document
