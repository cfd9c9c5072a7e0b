/-
EntityQuery/Yaml/Scalar.lean

Reading the scalars of YAML.

A scalar may go on over several lines.  What stands between two of its words
(`Gap`) is kept while it is on one line.  A single line break in it counts as
a blank; of several, each one after the first counts as a line feed.
-/
import EntityQuery.Number.IntegerText

namespace EntityQuery.Yaml

/-! ### Characters -/

/-- A blank within a line. -/
def isBlank (c : Char) : Bool := c = ' ' || c = '\t'

/-- A character that ends a line. -/
def isBreak (c : Char) : Bool :=
  c = '\n' || c = '\r' || c = '\x85' || c = '\u2028' || c = '\u2029'

/-- Whether a text begins with a blank or a line break, or is at its end. -/
def atGap : List Char → Bool
  | [] => true
  | c :: _ => isBlank c || isBreak c

/-- The line break that a text begins with: the character it stands for, and
the number of characters it takes. -/
def breakAt? : List Char → Option (Char × Nat)
  | '\r' :: '\n' :: _ => some ('\n', 2)
  | c :: _ =>
    if c = '\u2028' ∨ c = '\u2029' then some (c, 1)
    else if isBreak c then some ('\n', 1)
    else none
  | [] => none

/-- Whether a text begins with the mark of the start or the end of a
document. -/
def atDocumentMark : List Char → Bool
  | '-' :: '-' :: '-' :: rest => atGap rest
  | '.' :: '.' :: '.' :: rest => atGap rest
  | _ => false

/-! ### Cursors -/

/-- The number of bytes that characters take in UTF-8. -/
def byteCount : List Char → Nat
  | [] => 0
  | c :: rest => c.utf8Size + byteCount rest

/-- A place in a text: what comes next, and where it stands.  Columns are
counted in characters, `offset` in bytes from the beginning of the text.
`size` is the number of characters of the whole text, so that nothing read
from here takes more steps. -/
structure Cursor where
  rest : List Char
  line : Nat
  column : Nat
  offset : Nat
  size : Nat

namespace Cursor

/-- The beginning of a text. -/
def start (text : List Char) : Cursor := ⟨text, 0, 0, 0, text.length⟩

/-- Go on by some characters of the line. -/
def advance (here : Cursor) (n : Nat) : Cursor :=
  { here with
    rest := here.rest.drop n
    column := here.column + n
    offset := here.offset + byteCount (here.rest.take n) }

/-- Go on over a line break of some characters. -/
def nextLine (here : Cursor) (n : Nat) : Cursor :=
  { here with
    rest := here.rest.drop n
    line := here.line + 1
    column := 0
    offset := here.offset + byteCount (here.rest.take n) }

/-- Whether a document begins or ends here. -/
def atMark (here : Cursor) : Bool := here.column = 0 && atDocumentMark here.rest

end Cursor

/-! ### Gaps -/

/-- What stands between two words of a scalar: blanks, or line breaks after
an optional first one.  Both lists hold the last character first. -/
inductive Gap where
  | blanks (read : List Char)
  | breaks (first : Option Char) (later : List Char)
deriving DecidableEq, Repr

namespace Gap

/-- Nothing between two characters. -/
def none : Gap := .blanks []

/-- Whether there is a gap at all. -/
def isOpen : Gap → Bool
  | .blanks [] => false
  | _ => true

/-- Whether the gap goes on to another line. -/
def isBroken : Gap → Bool
  | .blanks _ => false
  | .breaks _ _ => true

/-- The gap with one more blank, which counts only while no line ends. -/
def addBlank (c : Char) : Gap → Gap
  | .blanks read => .blanks (c :: read)
  | gap => gap

/-- The gap with one more line break. -/
def addBreak (c : Char) : Gap → Gap
  | .blanks _ => .breaks (some c) []
  | .breaks first later => .breaks first (c :: later)

/-- What the gap stands for, last character first. -/
def folded : Gap → List Char
  | .blanks read => read
  | .breaks (some '\n') [] => [' ']
  | .breaks (some '\n') later => later
  | .breaks first later => later ++ first.toList

end Gap

/-- A scalar that has been read: its text, whether a line ended after its
last word, and the place behind it. -/
structure ScalarText where
  text : String
  brokenAfter : Bool
  after : Cursor

/-! ### Plain scalars -/

/-- Whether a plain scalar ends before a character inside a word. -/
def endsWord (flow : Bool) (c : Char) (rest : List Char) : Bool :=
  (c = ':' && atGap rest) || (flow && [',', '[', ']', '{', '}'].contains c)

/-- Whether a colon stands where flow collections do not allow it. -/
def isStrayColon (flow : Bool) (c : Char) : List Char → Bool
  | d :: _ => flow && c = ':' && [',', '?', '[', ']', '{', '}'].contains d
  | [] => false

/-- The plain scalar that ends with a gap here; `read` holds its text, last
character first. -/
def plainText (gap : Gap) (read : List Char) (here : Cursor) : ScalarText :=
  ⟨String.ofList read.reverse, gap.isBroken, here⟩

/-- The rest of a plain scalar.  In a block it ends where a line is indented
less than `indent`; `read` holds what has been read, last character first. -/
def plainFrom (flow : Bool) (indent : Nat) :
    Nat → Gap → List Char → Cursor → Option ScalarText
  | 0, _, _, _ => none
  | fuel + 1, gap, read, here =>
    match here.rest, breakAt? here.rest with
    | [], _ => some (plainText gap read here)
    | _, some (b, n) => plainFrom flow indent fuel (gap.addBreak b) read (here.nextLine n)
    | c :: rest, none =>
      if isBlank c then
        if gap.isBroken && c = '\t' && here.column < indent then none
        else plainFrom flow indent fuel (gap.addBlank c) read (here.advance 1)
      else if gap.isOpen && (here.atMark || c = '#' || (!flow && here.column < indent)) then
        some (plainText gap read here)
      else if isStrayColon flow c rest then none
      else if endsWord flow c rest then some (plainText gap read here)
      else plainFrom flow indent fuel .none (c :: (gap.folded ++ read)) (here.advance 1)

/-- A plain scalar. -/
def readPlain (flow : Bool) (indent : Nat) (here : Cursor) : Option ScalarText :=
  plainFrom flow indent (here.size + 1) .none [] here

/-! ### Quoted scalars -/

/-- The character that an escape letter stands for. -/
def shortEscape? (c : Char) : Option Char :=
  match c with
  | '0' => some '\x00'
  | 'a' => some '\x07'
  | 'b' => some '\x08'
  | 't' => some '\t'
  | '\t' => some '\t'
  | 'n' => some '\n'
  | 'v' => some '\x0b'
  | 'f' => some '\x0c'
  | 'r' => some '\r'
  | 'e' => some '\x1b'
  | ' ' => some ' '
  | '"' => some '"'
  | '/' => some '/'
  | '\\' => some '\\'
  | 'N' => some '\x85'
  | '_' => some '\xa0'
  | 'L' => some '\u2028'
  | 'P' => some '\u2029'
  | _ => none

/-- The number of hexadecimal digits after an escape letter. -/
def escapeWidth? (c : Char) : Option Nat :=
  match c with
  | 'x' => some 2
  | 'u' => some 4
  | 'U' => some 8
  | _ => none

/-- The character whose number some hexadecimal digits spell. -/
def charOfDigits? (digits : List Char) : Option Char := do
  let values ← digits.mapM (digitValue? 16)
  let n := values.foldl (fun n d => n * 16 + d) 0
  if n.isValidChar then some (Char.ofNat n) else none

/-- The character of an escape, and the number of characters the escape takes
after its backslash. -/
def escapeAt? : List Char → Option (Char × Nat)
  | [] => none
  | c :: rest =>
    match shortEscape? c, escapeWidth? c with
    | some e, _ => some (e, 1)
    | none, some width =>
      if width ≤ rest.length then (charOfDigits? (rest.take width)).map fun e => (e, width + 1)
      else none
    | none, none => none

/-- The rest of a quoted scalar; `single` tells single quotes, in which a
quote is written twice, from double ones, in which a backslash escapes. -/
def quotedFrom (single : Bool) : Nat → Gap → List Char → Cursor → Option ScalarText
  | 0, _, _, _ => none
  | fuel + 1, gap, read, here =>
    let before := gap.folded ++ read
    match here.rest, breakAt? here.rest with
    | [], _ => none
    | _, some (b, n) => quotedFrom single fuel (gap.addBreak b) read (here.nextLine n)
    | c :: rest, none =>
      if isBlank c then quotedFrom single fuel (gap.addBlank c) read (here.advance 1)
      else if here.atMark then none
      else if single && c = '\'' && rest.head? = some '\'' then
        quotedFrom single fuel .none ('\'' :: before) (here.advance 2)
      else if c = (if single then '\'' else '"') then
        some ⟨String.ofList before.reverse, false, here.advance 1⟩
      else if !single && c = '\\' then
        match breakAt? rest with
        | some (_, n) =>
          quotedFrom single fuel (.breaks Option.none []) before ((here.advance 1).nextLine n)
        | none =>
          match escapeAt? rest with
          | some (e, n) => quotedFrom single fuel .none (e :: before) (here.advance (n + 1))
          | none => none
      else quotedFrom single fuel .none (c :: before) (here.advance 1)

/-- A quoted scalar, the cursor standing at its quote. -/
def readQuoted (single : Bool) (here : Cursor) : Option ScalarText :=
  quotedFrom single (here.size + 1) .none [] (here.advance 1)

end EntityQuery.Yaml
