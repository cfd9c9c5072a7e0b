/-
EntityQuery/Document/Literal.lean

The values a document can contain: variables, strings, numbers, lists,
objects, the words `true`, `false` and `null`, and other names.

Lists and objects may nest to a depth of `maxNesting`, counted together; the
parser is recursive on the room that is left, and a container opened with no
room left is a hard failure.
-/
import EntityQuery.Document.Basic
import EntityQuery.Document.Token
import EntityQuery.Number.DecimalText

namespace EntityQuery.Document

/-- The greatest depth of lists and objects in a value, of list types, and of
selection sets. -/
def maxNesting : Nat := 64

/-- The reason given for nesting beyond `maxNesting`. -/
def tooDeep : String := "Nesting too deep"

/-! ### Variables and words -/

/-- A variable: a dollar sign and a name directly after it. -/
def variableName : Parser String :=
  Parser.andThen (char '$') (Parser.commit name)

/-- What a bare word means. -/
def wordValue (word : String) : Value :=
  if word = "true" then .boolean true
  else if word = "false" then .boolean false
  else if word = "null" then .null
  else .enum word

/-! ### Numbers -/

/-- At least one digit. -/
def digits1 (text : List Char) : Option (List Nat × List Char) :=
  match spanDigits text with
  | ([], _) => none
  | (ds, rest) => some (ds, rest)

/-- A fraction, if a point and at least one digit follow. -/
def fraction (text : List Char) : Option (List Nat) × List Char :=
  match text with
  | '.' :: rest =>
    match digits1 rest with
    | some (ds, rest) => (some ds, rest)
    | none => (none, text)
  | _ => (none, text)

/-- A power of ten, if a letter `e` and at least one digit follow. -/
def power (text : List Char) : Option Int × List Char :=
  match text with
  | c :: rest =>
    if c = 'e' ∨ c = 'E' then
      let (negative, digits) := match rest with
        | '-' :: digits => (true, digits)
        | '+' :: digits => (false, digits)
        | digits => (false, digits)
      match digits1 digits with
      | some (ds, rest) =>
        (some (if negative then -(digitsValue ds : Int) else digitsValue ds), rest)
      | none => (none, text)
    else (none, text)
  | [] => (none, text)

/-- A number: an integer of 64 bits, or with a fraction or a power of ten the
nearest double. -/
def number : Parser Value := fun input =>
  let (negative, unsigned) := match input with
    | '-' :: rest => (true, rest)
    | rest => (false, rest)
  match digits1 unsigned with
  | none => Parser.fail unsigned
  | some (whole, afterWhole) =>
    let (part, afterPart) := fraction afterWhole
    let (exponent, rest) := power afterPart
    if part.isNone && exponent.isNone then
      let i : Int := if negative then -(digitsValue whole : Int) else digitsValue whole
      if IntegerRange.int64.has i then .ok (.int i) rest
      else .hard [⟨input, "Integer literal out of range"⟩]
    else
      let ds := part.getD []
      .ok (.float (.ofDecimal negative (digitsValue (whole ++ ds))
        (exponent.getD 0 - ds.length))) rest

/-! ### Strings -/

/-- The character of a one-letter escape. -/
def shortEscape? (c : Char) : Option Char :=
  match c with
  | '"' => some '"'
  | '\\' => some '\\'
  | '/' => some '/'
  | 'b' => some '\x08'
  | 'f' => some '\x0c'
  | 'n' => some '\n'
  | 'r' => some '\r'
  | 't' => some '\t'
  | _ => none

/-- The number of four characters taken as hexadecimal digits, the first of
which may be a plus sign. -/
def hexFour? (a b c d : Char) : Option Nat :=
  match IntegerRange.readBase ⟨0, 0xFFFF⟩ 16 [a, b, c, d] with
  | .ok n => some n.toNat
  | .error _ => none

/-- The character with a code, surrogates having none. -/
def charOfCode? (n : Nat) : Option Char :=
  if h : n.isValidChar then some (Char.ofNatAux n h) else none

/-- The rest of a string after its opening quote, which stood before
`opening`; `read` holds what has been read, last character first. -/
def stringFrom (opening : List Char) (read : List Char) : Parser String
  | [] => .hard [⟨opening, "Unterminated string literal"⟩]
  | '\\' :: 'u' :: rest =>
    match rest with
    | a :: b :: c :: d :: rest' =>
      match (hexFour? a b c d).bind charOfCode? with
      | some decoded => stringFrom opening (decoded :: read) rest'
      | none => .hard [⟨'\\' :: 'u' :: rest, "Invalid unicode escape"⟩]
    | _ => .hard [⟨'\\' :: 'u' :: rest, "Invalid unicode escape"⟩]
  | '\\' :: e :: rest =>
    match shortEscape? e with
    | some decoded => stringFrom opening (decoded :: read) rest
    | none => .hard [⟨'\\' :: e :: rest, "Invalid escape sequence"⟩]
  | c :: rest =>
    if c = '"' then .ok (String.ofList read.reverse) rest
    else if c = '\n' then .hard [⟨opening, "Unterminated string literal"⟩]
    else if c = '\\' then .hard [⟨[c], "Invalid escape sequence"⟩]
    else stringFrom opening (c :: read) rest

/-- A string in quotes, on one line. -/
def string : Parser String
  | '"' :: body => stringFrom ('"' :: body) [] body
  | input => .soft [⟨input, "Expected string literal"⟩]

/-! ### Containers -/

/-- What an opening bracket must be followed by, if there is room for one
more level. -/
def opened {α : Type} (bracket : Char) (body : Option (Parser α)) : Parser α := fun input =>
  (punct bracket input).bind fun _ inner =>
    match body with
    | none => .hard [⟨input, tooDeep⟩]
    | some p => p inner

/-- The items of a list after the opening bracket. -/
def listBody (item : Parser Value) : Parser Value :=
  Parser.commit <| Parser.expecting "Unterminated list value" <|
    Parser.map (fun items => .list items.1) (Parser.pair (Parser.many item) (punct ']'))

/-- An entry of an object. -/
def entry (item : Parser Value) : Parser (String × Value) :=
  Parser.pair (token name) <|
    Parser.andThen
      (Parser.expecting "Expected ':' after object field name" (Parser.commit (punct ':')))
      (Parser.expecting "Expected value" (Parser.commit item))

/-- The entries of an object after the opening brace. -/
def objectBody (item : Parser Value) : Parser Value :=
  Parser.map (fun entries => .object entries.1) <|
    Parser.pair (Parser.many (entry item))
      (Parser.expecting "Unterminated object value" (Parser.commit (punct '\x7d')))

/-- A value whose containers hold values read by `item`, if there is room for
containers. -/
def valueOver (item : Option (Parser Value)) : Parser Value := token <| Parser.choice [
  Parser.map .variable variableName,
  Parser.map .string string,
  number,
  opened '[' (item.map listBody),
  opened '\x7b' (item.map objectBody),
  Parser.map wordValue name]

/-- A value that may nest `room` containers. -/
def valueWithin : Nat → Parser Value
  | 0 => valueOver none
  | room + 1 => valueOver (some (valueWithin room))

/-- A value. -/
def value : Parser Value := valueWithin maxNesting

end EntityQuery.Document
