/-
EntityQuery/Json/Text.lean

The compact text of a JSON value: no blanks, members in their order,
characters beyond ASCII as they are.

In a string the quote, the backslash and the control characters are escaped,
the latter by their short form where there is one and by four lower-case
hexadecimal digits otherwise.  A double is written with the fewest digits
that read back as it, with a point when it is at least `1e-5` and less than
`1e16`, and otherwise with a signed power of ten.
-/
import EntityQuery.Json.Basic
import EntityQuery.Number.Shortest

namespace EntityQuery.Json

/-! ### Numbers -/

/-- Doubles of JSON keep a fraction, and use a power of ten outside
`1e-5 ≤ x < 1e16`; a tie goes to the even digit. -/
def numberLayout : DecimalLayout := ⟨some (-4, 16), true, .even⟩

/-- The text of a number. -/
def numberText : JsonNumber → List Char
  | .int i => integerText i
  | .float x _ => numberLayout.write x

/-! ### Strings -/

/-- A hexadecimal digit, lower case. -/
def hexDigit (n : Nat) : Char := Nat.digitChar (n % 16)

/-- One character inside a quoted string. -/
def escapeChar (c : Char) : List Char :=
  if c = '"' then ['\\', '"']
  else if c = '\\' then ['\\', '\\']
  else if c = '\x08' then ['\\', 'b']
  else if c = '\x0c' then ['\\', 'f']
  else if c = '\n' then ['\\', 'n']
  else if c = '\r' then ['\\', 'r']
  else if c = '\t' then ['\\', 't']
  else if c.toNat < 0x20 then ['\\', 'u', '0', '0', hexDigit (c.toNat / 16), hexDigit c.toNat]
  else [c]

/-- A string in quotes. -/
def quoted (s : String) : List Char :=
  '"' :: (s.toList.flatMap escapeChar ++ ['"'])

/-! ### Values -/

mutual

/-- The characters of the compact text. -/
def chars : Json → List Char
  | .null => ['n', 'u', 'l', 'l']
  | .bool true => ['t', 'r', 'u', 'e']
  | .bool false => ['f', 'a', 'l', 's', 'e']
  | .number n => numberText n
  | .string s => quoted s
  | .array [] => ['[', ']']
  | .array (x :: xs) => '[' :: (chars x ++ moreItems xs)
  | .object [] => ['{', '}']
  | .object ((name, x) :: xs) => '{' :: (quoted name ++ ':' :: (chars x ++ moreMembers xs))

/-- The items after the first, and the closing bracket. -/
def moreItems : List Json → List Char
  | [] => [']']
  | x :: xs => ',' :: (chars x ++ moreItems xs)

/-- The members after the first, and the closing brace. -/
def moreMembers : List (String × Json) → List Char
  | [] => ['}']
  | (name, x) :: xs => ',' :: (quoted name ++ ':' :: (chars x ++ moreMembers xs))

end

/-- The compact text. -/
def text (j : Json) : String := String.ofList (chars j)

/-- A string as it is, any other value as its text; null has none. -/
def textOrSelf? : Json → Option String
  | .null => none
  | .string s => some s
  | other => some other.text

end EntityQuery.Json
