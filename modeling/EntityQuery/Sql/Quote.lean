/-
EntityQuery/Sql/Quote.lean

Constants in SQL text.

Inside a quoted string the backslash, the quote, line feed, carriage return,
tab and NUL are written as escapes.  A number has all its digits and no power
of ten, a truth value is `1` or `0`, a list is in brackets, and a document is
its JSON text in quotes.
-/
import EntityQuery.Json.Text

namespace EntityQuery.Sql

/-! ### Strings -/

/-- One character inside a quoted string. -/
def escapeChar (c : Char) : List Char :=
  if c = '\\' then ['\\', '\\']
  else if c = '\'' then ['\\', '\'']
  else if c = '\n' then ['\\', 'n']
  else if c = '\r' then ['\\', 'r']
  else if c = '\t' then ['\\', 't']
  else if c = '\x00' then ['\\', '0']
  else [c]

/-- The inside of a quoted string. -/
def escape (text : List Char) : List Char := text.flatMap escapeChar

/-- A string in quotes. -/
def quoted (s : String) : List Char := '\'' :: (escape s.toList ++ ['\''])

/-! ### Numbers -/

/-- Doubles of SQL never have a power of ten, and a whole one has no
fraction. -/
def numberLayout : DecimalLayout := ⟨none, false, .up⟩

/-- A finite double. -/
def doubleText (x : Binary64) : List Char :=
  if x.isFinite then numberLayout.write x
  else if x.negative then ['-', 'i', 'n', 'f'] else ['i', 'n', 'f']

/-- A number. -/
def numberText : JsonNumber → List Char
  | .int i => integerText i
  | .float x _ => doubleText x

/-! ### Values -/

mutual

/-- A value as a constant. -/
def constant : Json → List Char
  | .null => ['N', 'U', 'L', 'L']
  | .bool true => ['1']
  | .bool false => ['0']
  | .number n => numberText n
  | .string s => quoted s
  | .array [] => ['[', ']']
  | .array (x :: xs) => '[' :: (constant x ++ moreConstants xs)
  | .object members => quoted (Json.text (.object members))

/-- The items after the first, and the closing bracket. -/
def moreConstants : List Json → List Char
  | [] => [']']
  | x :: xs => ',' :: ' ' :: (constant x ++ moreConstants xs)

end

end EntityQuery.Sql
