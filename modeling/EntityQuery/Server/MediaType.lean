/-
EntityQuery/Server/MediaType.lean

Media types, as the header of a request names the form of its body.

A media type is two words with a slash between, and parameters behind.  What
stands behind the last plus sign of the second word is its suffix, the name
of the format that the type is built on.
-/

namespace EntityQuery

/-- A media type, in small letters and without its parameters. -/
structure MediaType where
  type : String
  subtype : String
  suffix? : Option String
deriving DecidableEq, Repr

namespace MediaType

/-! ### Words -/

/-- A character of a word. -/
def isWordPart (c : Char) : Bool :=
  c.isAlphanum ||
    ['!', '#', '$', '%', '&', '\'', '*', '+', '-', '.', '^', '_', '\x60', '|', '~'].contains c

/-- A character between quotes. -/
def isQuotable (c : Char) : Bool := ' ' ≤ c && c ≤ '~'

/-- A word in small letters. -/
def lowered (word : List Char) : String := String.ofList (word.map Char.toLower)

/-- The part of a word before its last plus sign and the part behind it; a
plus sign at the beginning does not count. -/
def splitSuffix (word : List Char) : List Char × Option (List Char) :=
  let behind := (word.reverse.takeWhile (· ≠ '+')).reverse
  let before := word.take (word.length - behind.length - 1)
  if before.isEmpty then (word, none) else (before, some behind)

/-! ### Parameters -/

/-- The rest after a quoted value: nothing, or blanks and a semicolon. -/
def afterQuoted? (text : List Char) : Option (List Char) :=
  match text.dropWhile (· = ' ') with
  | [] => some []
  | c :: rest => if c = ';' then some rest else none

/-- The rest after a value in quotes, which holds at least one character. -/
def quotedValue? : List Char → Option (List Char)
  | [] => none
  | first :: rest =>
    let inside := first :: rest.takeWhile (· ≠ '"')
    match rest.dropWhile (· ≠ '"') with
    | [] => none
    | _ :: rest => if inside.all isQuotable then afterQuoted? rest else none

/-- The rest after the value of a parameter, and after the semicolon behind
it.  Only the last value may be empty. -/
def value? : List Char → Option (List Char)
  | '"' :: text => quotedValue? text
  | text =>
    match text.dropWhile isWordPart with
    | [] => some []
    | c :: rest => if c = ';' ∧ (text.head?.any isWordPart) then some rest else none

/-- Whether a text is a list of parameters, each a name with a value.  Blanks
may stand before a name, and a semicolon behind the last value. -/
def areParameters : Nat → List Char → Bool
  | _, [] => true
  | 0, _ => false
  | fuel + 1, c :: rest =>
    if c = ' ' then areParameters fuel rest
    else if isWordPart c then
      match rest.dropWhile isWordPart with
      | '=' :: text =>
        match value? text with
        | some rest => areParameters fuel rest
        | none => false
      | _ => false
    else false

/-! ### Reading -/

/-- A media type. -/
def read? (text : String) : Option MediaType :=
  let chars := text.toList
  let type := chars.takeWhile isWordPart
  match chars.dropWhile isWordPart with
  | '/' :: rest =>
    let word := rest.takeWhile isWordPart
    let parameters := rest.dropWhile isWordPart
    let (subtype, suffix) := splitSuffix word
    let found : MediaType := ⟨lowered type, lowered subtype, suffix.map lowered⟩
    if type.isEmpty then none
    else
      match parameters with
      | [] => some found
      | c :: rest =>
        if !word.isEmpty && c = ';' && areParameters rest.length rest then some found else none
  | _ => none

/-- Whether a body of the type is JSON. -/
def isJson (m : MediaType) : Bool :=
  m.type = "application" && (m.subtype = "json" || m.suffix? = some "json")

end MediaType

end EntityQuery
