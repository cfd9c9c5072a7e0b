/-
EntityQuery/Json/Skip.lean

Passing over a JSON value without reading it.

Only the form of the value counts: a number may be of any size, an escape may
name half of a surrogate pair, and containers may nest to any depth.
-/
import EntityQuery.Json.Read

namespace EntityQuery.Json

/-- What passes over something at the beginning of a text: the text behind
it. -/
abbrev Skipper := List Char → Option (List Char)

/-- A string after its opening quote. -/
def skipString : Skipper
  | [] => none
  | '\\' :: 'u' :: a :: b :: c :: d :: rest =>
    if (hexFour? a b c d).isSome then skipString rest else none
  | '\\' :: e :: rest => if (shortEscape? e).isSome then skipString rest else none
  | c :: rest =>
    if c = '"' then some rest
    else if c = '\\' ∨ c.toNat < 0x20 then none
    else skipString rest

/-- Digits, at least one. -/
def skipDigits (text : List Char) : Option (List Char) :=
  match spanDigits text with
  | ([], _) => none
  | (_, rest) => some rest

/-- Digits of the whole part of a number; a zero stands alone. -/
def skipWhole (text : List Char) : Option (List Char) :=
  match spanDigits text with
  | ([], _) => none
  | (0 :: _ :: _, _) => none
  | (_, rest) => some rest

/-- A number. -/
def skipNumber (text : List Char) : Option (List Char) := do
  let rest ← skipWhole ((after? ['-'] text).getD text)
  let rest ← match rest with
    | '.' :: rest => skipDigits rest
    | rest => some rest
  (scanPower rest).map Prod.snd

/-- A value that is not a container. -/
def skipAtom : Skipper
  | '"' :: rest => skipString rest
  | 'n' :: rest => after? ['u', 'l', 'l'] rest
  | 't' :: rest => after? ['r', 'u', 'e'] rest
  | 'f' :: rest => after? ['a', 'l', 's', 'e'] rest
  | text => skipNumber text

/-- A name with its colon and value. -/
def skipMember (item : Skipper) (text : List Char) : Option (List Char) := do
  let rest ← after? ['"'] (skipSpace text)
  let rest ← skipString rest
  let rest ← after? [':'] (skipSpace rest)
  item rest

/-- Parts with commas between, up to a closing character. -/
def skipParts (close : Char) (part : Skipper) : Nat → Skipper
  | 0, _ => none
  | fuel + 1, text => do
    let rest ← part text
    match skipSpace rest with
    | c :: rest =>
      if c = ',' then skipParts close part fuel rest
      else if c = close then some rest
      else none
    | [] => none

/-- The inside of a container, which may be empty, and its closing
character. -/
def skipInside (close : Char) (part : Skipper) (text : List Char) : Option (List Char) :=
  match skipSpace text with
  | [] => none
  | c :: rest => if c = close then some rest else skipParts close part text.length text

/-- A value with at most `depth` containers one inside the other. -/
def skipWithin : Nat → Skipper
  | 0, _ => none
  | depth + 1, text =>
    match skipSpace text with
    | '[' :: rest => skipInside ']' (skipWithin depth) rest
    | '{' :: rest => skipInside '}' (skipMember (skipWithin depth)) rest
    | text => skipAtom text

/-- A value.  Every container takes a character, so the length of the text
bounds the depth. -/
def skipValue (text : List Char) : Option (List Char) := skipWithin (text.length + 1) text

end EntityQuery.Json
