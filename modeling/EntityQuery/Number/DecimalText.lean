/-
EntityQuery/Number/DecimalText.lean

Numbers with a fraction or a power of ten, as text.

`Decimal.scan` reads the unsigned form `digits [. digits] [e [sign] digits]`
with digits on at least one side of the point; `Binary64.read` reads a whole
text in that form, signed, or one of the words for infinity and NaN.
-/
import EntityQuery.Number.Shortest
import EntityQuery.Number.IntegerText

namespace EntityQuery

/-! ### Runs of digits -/

/-- The decimal digits that a text begins with, and the rest. -/
def spanDigits : List Char → List Nat × List Char
  | [] => ([], [])
  | c :: rest =>
    match digitValue? 10 c with
    | none => ([], c :: rest)
    | some d => (d :: (spanDigits rest).1, (spanDigits rest).2)

/-- The number that digits spell. -/
def digitsValue (digits : List Nat) : Nat :=
  digits.foldl (fun value d => 10 * value + d) 0

/-! ### Unsigned decimals -/

/-- The power of ten after a mantissa: none at all is the power zero, and a
letter `e` without digits is a fault. -/
def scanPower : List Char → Option (Int × List Char)
  | [] => some (0, [])
  | c :: rest =>
    if c = 'e' ∨ c = 'E' then
      let (negative, digits) := match rest with
        | '-' :: digits => (true, digits)
        | '+' :: digits => (false, digits)
        | digits => (false, digits)
      match spanDigits digits with
      | ([], _) => none
      | (ds, rest) => some (if negative then -(digitsValue ds : Int) else digitsValue ds, rest)
    else some (0, c :: rest)

/-- An unsigned decimal at the beginning of a text. -/
def Decimal.scan (text : List Char) : Option (Decimal × List Char) :=
  let (whole, rest) := spanDigits text
  let (part, rest) := match rest with
    | '.' :: rest => spanDigits rest
    | rest => ([], rest)
  if whole.isEmpty && part.isEmpty then none
  else
    (scanPower rest).map fun (power, rest) =>
      (⟨digitsValue (whole ++ part), power - part.length⟩, rest)

/-! ### Signed texts -/

/-- What is wrong with the text of a number. -/
inductive DecimalFault where
  | empty
  | invalid
deriving DecidableEq, Repr

/-- The wording of a fault. -/
def DecimalFault.message : DecimalFault → String
  | .empty => "cannot parse float from empty string"
  | .invalid => "invalid float literal"

namespace Binary64

/-- A magnitude: a decimal, or a word for infinity or NaN in any case.  NaN
is `none`. -/
def readMagnitude (negative : Bool) (text : List Char) : Except DecimalFault (Option Binary64) :=
  match Decimal.scan text with
  | some (d, []) => .ok (some (ofDecimal negative d.digits d.exponent))
  | _ =>
    let word := String.ofList (text.map Char.toLower)
    if word = "inf" ∨ word = "infinity" then .ok (some (infinity negative))
    else if word = "nan" then .ok none
    else .error .invalid

/-- The number nearest to the one that a text spells; NaN is `none`. -/
def read (text : String) : Except DecimalFault (Option Binary64) :=
  match text.toList with
  | [] => .error .empty
  | '-' :: rest => readMagnitude true rest
  | '+' :: rest => readMagnitude false rest
  | rest => readMagnitude false rest

end Binary64

end EntityQuery
