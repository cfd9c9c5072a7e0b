/-
EntityQuery/Json/Read.lean

Reading JSON text.

Containers may nest to a depth given by the caller; for the text of a
document that is `Json.maxDepth`.  A name that is repeated in an object keeps
its first place and its last value.

A number without fraction and power that fits 64 bits, with a sign or
without, is an integer.  Any other number is a double made in two steps
(`Json.scaled`): the leading digits that fit 64 bits are rounded to a double,
and that is multiplied or divided by a power of ten.  A result beyond the
doubles makes the text invalid.
-/
import EntityQuery.Json.Basic
import EntityQuery.Number.DecimalText

namespace EntityQuery.Json

/-- The number of containers that may enclose a place of a document. -/
def maxDepth : Nat := 127

/-! ### Blanks and words -/

/-- The blanks between the tokens of JSON. -/
def isSpace (c : Char) : Bool := c = ' ' || c = '\n' || c = '\t' || c = '\r'

/-- The text after leading blanks. -/
def skipSpace (text : List Char) : List Char := text.dropWhile isSpace

/-- The text after a given beginning. -/
def after? : List Char → List Char → Option (List Char)
  | [], text => some text
  | _ :: _, [] => none
  | w :: ws, c :: text => if w = c then after? ws text else none

/-! ### Strings -/

/-- The number that four hexadecimal digits spell. -/
def hexFour? (a b c d : Char) : Option Nat := do
  let a ← digitValue? 16 a
  let b ← digitValue? 16 b
  let c ← digitValue? 16 c
  let d ← digitValue? 16 d
  return ((a * 16 + b) * 16 + c) * 16 + d

/-- The character of a one-letter escape. -/
def shortEscape? (c : Char) : Option Char :=
  match c with
  | '"' => some '"'
  | '\\' => some '\\'
  | '/' => some '/'
  | 'b' => some '\x08'
  | 'f' => some '\x0c'
  | 'n' => some '\n'
  | 'r' => some '\r'
  | 't' => some '\t'
  | _ => none

/-- The rest of a string after its opening quote; `read` holds what has been
read, last character first, and `high` the first half of a surrogate pair
whose second half must follow. -/
def readStringFrom (high : Option Nat) (read : List Char) :
    List Char → Option (String × List Char)
  | [] => none
  | '\\' :: 'u' :: a :: b :: c :: d :: rest =>
    match hexFour? a b c d with
    | none => none
    | some n =>
      match high with
      | some h =>
        if 0xDC00 ≤ n ∧ n ≤ 0xDFFF then
          readStringFrom none
            (Char.ofNat (0x10000 + (h - 0xD800) * 0x400 + (n - 0xDC00)) :: read) rest
        else none
      | none =>
        if 0xD800 ≤ n ∧ n ≤ 0xDBFF then readStringFrom (some n) read rest
        else if 0xDC00 ≤ n ∧ n ≤ 0xDFFF then none
        else readStringFrom none (Char.ofNat n :: read) rest
  | '\\' :: e :: rest =>
    match high, shortEscape? e with
    | none, some c => readStringFrom none (c :: read) rest
    | _, _ => none
  | c :: rest =>
    if high.isSome ∨ c = '\\' ∨ c.toNat < 0x20 then none
    else if c = '"' then some (String.ofList read.reverse, rest)
    else readStringFrom none (c :: read) rest

/-- A string after its opening quote. -/
def readString (text : List Char) : Option (String × List Char) :=
  readStringFrom none [] text

/-! ### Numbers -/

/-- The greatest significand that is kept exactly. -/
def significandLimit : Nat := 18446744073709551615

/-- Append digits of the whole part while they fit; from the first that does
not fit on, digits only count. -/
def appendWhole (significand : Nat) : List Nat → Nat × Nat
  | [] => (significand, 0)
  | d :: ds =>
    if significand * 10 + d ≤ significandLimit then appendWhole (significand * 10 + d) ds
    else (significand, (d :: ds).length)

/-- Append digits of the fraction while they fit; from the first that does
not fit on, digits are dropped.  Beside the significand stands the number of
digits appended. -/
def appendPart (significand : Nat) : List Nat → Nat × Nat
  | [] => (significand, 0)
  | d :: ds =>
    if significand * 10 + d ≤ significandLimit then
      let (result, count) := appendPart (significand * 10 + d) ds
      (result, count + 1)
    else (significand, 0)

/-- A power of ten as a double. -/
def tenPower (n : Nat) : Binary64 := .ofRatio false (Nat.pow 10 n) 1

/-- The significand rounded to a double, then scaled by a power of ten in one
multiplication or division; a power below `-308` takes two divisions.  Beyond
the doubles there is no result. -/
def scaled (significand : Nat) (power : Int) : Option Binary64 :=
  let x := Binary64.ofRatio false significand 1
  if x.isZero then some x
  else if 308 < power then none
  else if 0 ≤ power then
    let y := x.mul (tenPower power.toNat)
    if y.isFinite then some y else none
  else if -308 ≤ power then some (x.div (tenPower (-power).toNat))
  else
    let y := x.div (tenPower 308)
    if power < -616 then some (.zero false) else some (y.div (tenPower (-(power + 308)).toNat))

/-- A number that begins with a digit, after its sign if it has one. -/
def readMagnitude (negative : Bool) (text : List Char) : Option (JsonNumber × List Char) := do
  let (whole, rest) := spanDigits text
  if whole.isEmpty then none
  if whole.head? = some 0 ∧ 1 < whole.length then none
  let (part, pointed, rest) ← match rest with
    | '.' :: rest =>
      let (part, rest) := spanDigits rest
      if part.isEmpty then none else some (part, true, rest)
    | rest => some ([], false, rest)
  let powered := match rest with
    | c :: _ => c = 'e' || c = 'E'
    | [] => false
  let (power, rest) ← scanPower rest
  let (significand, extra) := appendWhole 0 whole
  if extra = 0 && !pointed && !powered && !(negative && significand = 0) then
    let i : Int := if negative then -significand else significand
    if IntegerRange.int64.has i || IntegerRange.nat64.has i then
      return (.int i, rest)
  let (significand, count) := appendPart significand part
  let x ← scaled significand (power + extra - count)
  let signed := if negative then x.neg else x
  if h : signed.isFinite then return (.float signed h, rest) else none

/-- A number. -/
def readNumber : List Char → Option (JsonNumber × List Char)
  | '-' :: text => readMagnitude true text
  | text => readMagnitude false text

/-! ### Containers -/

/-- A reader of one value at the beginning of a text. -/
abbrev Reader := List Char → Option (Json × List Char)

/-- Items up to the closing bracket, the text standing at an item.  Each item
takes at least one character, so `fuel` is the length of the text. -/
def readItems (item : Reader) : Nat → List Char → Option (List Json × List Char)
  | 0, _ => none
  | fuel + 1, text => do
    let (x, rest) ← item text
    match skipSpace rest with
    | ',' :: rest =>
      let (xs, rest) ← readItems item fuel rest
      return (x :: xs, rest)
    | ']' :: rest => return ([x], rest)
    | _ => none

/-- Members up to the closing brace, the text standing at a name. -/
def readMembers (item : Reader) : Nat → List Char → Option (List (String × Json) × List Char)
  | 0, _ => none
  | fuel + 1, text => do
    let rest ← after? ['"'] (skipSpace text)
    let (name, rest) ← readString rest
    let rest ← after? [':'] (skipSpace rest)
    let (x, rest) ← item rest
    match skipSpace rest with
    | ',' :: rest =>
      let (xs, rest) ← readMembers item fuel rest
      return ((name, x) :: xs, rest)
    | '}' :: rest => return ([(name, x)], rest)
    | _ => none

/-- The items of an array after its opening bracket. -/
def readArray (item : Reader) (text : List Char) : Option (Json × List Char) :=
  match skipSpace text with
  | ']' :: rest => some (.array [], rest)
  | text => (readItems item text.length text).map fun (xs, rest) => (.array xs, rest)

/-- The members of an object after its opening brace. -/
def readObject (item : Reader) (text : List Char) : Option (Json × List Char) :=
  match skipSpace text with
  | '}' :: rest => some (.object [], rest)
  | text =>
    (readMembers item text.length text).map fun (xs, rest) => (.object (Keyed.ofPairs xs), rest)

/-- A value that is not a container. -/
def readAtom : List Char → Option (Json × List Char)
  | '"' :: rest => (readString rest).map fun (s, rest) => (.string s, rest)
  | 'n' :: rest => (after? ['u', 'l', 'l'] rest).map fun rest => (.null, rest)
  | 't' :: rest => (after? ['r', 'u', 'e'] rest).map fun rest => (.bool true, rest)
  | 'f' :: rest => (after? ['a', 'l', 's', 'e'] rest).map fun rest => (.bool false, rest)
  | text => (readNumber text).map fun (n, rest) => (.number n, rest)

/-- A value at the beginning of a text, with at most `depth` containers one
inside the other. -/
def readValue : Nat → Reader
  | 0, text =>
    match skipSpace text with
    | '[' :: _ => none
    | '{' :: _ => none
    | text => readAtom text
  | depth + 1, text =>
    match skipSpace text with
    | '[' :: rest => readArray (readValue depth) rest
    | '{' :: rest => readObject (readValue depth) rest
    | text => readAtom text

/-- A text that is one value, with blanks around it. -/
def readWithin (depth : Nat) (text : String) : Option Json :=
  match readValue depth text.toList with
  | some (j, rest) => if (skipSpace rest).isEmpty then some j else none
  | none => none

/-- The document that a text holds. -/
def read? (text : String) : Option Json := readWithin maxDepth text

end EntityQuery.Json
