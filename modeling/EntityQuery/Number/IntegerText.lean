/-
EntityQuery/Number/IntegerText.lean

Whole numbers written in digits, within a range.

Reading goes from left to right and stops at the first fault, so a character
that is no digit and a value out of range compete by position: digits enough
to leave the range win over a wrong character after them.
-/

namespace EntityQuery

/-- The integers from `least` to `greatest`.  A minus sign is known only to
a range that reaches below zero. -/
structure IntegerRange where
  least : Int
  greatest : Int
deriving DecidableEq

/-- What is wrong with the text of an integer. -/
inductive IntegerFault where
  | empty
  | invalidDigit
  | tooLarge
  | tooSmall
deriving DecidableEq, Repr

/-- The wording of a fault. -/
def IntegerFault.message : IntegerFault → String
  | .empty => "cannot parse integer from empty string"
  | .invalidDigit => "invalid digit found in string"
  | .tooLarge => "number too large to fit in target type"
  | .tooSmall => "number too small to fit in target type"

/-- The value of a digit in a base of at most sixteen. -/
def digitValue? (base : Nat) (c : Char) : Option Nat :=
  let value :=
    if '0' ≤ c ∧ c ≤ '9' then some (c.toNat - '0'.toNat)
    else if 'a' ≤ c ∧ c ≤ 'f' then some (c.toNat - 'a'.toNat + 10)
    else if 'A' ≤ c ∧ c ≤ 'F' then some (c.toNat - 'A'.toNat + 10)
    else none
  value.filter (· < base)

namespace IntegerRange

/-- The integers of 64 bits with a sign. -/
def int64 : IntegerRange := ⟨-9223372036854775808, 9223372036854775807⟩

/-- The integers of 64 bits without a sign. -/
def nat64 : IntegerRange := ⟨0, 18446744073709551615⟩

/-- The integers of 16 bits without a sign. -/
def nat16 : IntegerRange := ⟨0, 65535⟩

/-- Whether `i` is in the range. -/
def has (range : IntegerRange) (i : Int) : Bool := range.least ≤ i ∧ i ≤ range.greatest

/-- Append digits to `value`, upwards. -/
def readUp (range : IntegerRange) (base : Nat) (value : Int) : List Char → Except IntegerFault Int
  | [] => .ok value
  | c :: rest =>
    match digitValue? base c with
    | none => .error .invalidDigit
    | some d =>
      let next := value * base + d
      if range.greatest < next then .error .tooLarge else range.readUp base next rest

/-- Append digits to `value`, downwards. -/
def readDown (range : IntegerRange) (base : Nat) (value : Int) :
    List Char → Except IntegerFault Int
  | [] => .ok value
  | c :: rest =>
    match digitValue? base c with
    | none => .error .invalidDigit
    | some d =>
      let next := value * base - d
      if next < range.least then .error .tooSmall else range.readDown base next rest

/-- An integer in digits of `base`, with a sign or without. -/
def readBase (range : IntegerRange) (base : Nat) : List Char → Except IntegerFault Int
  | [] => .error .empty
  | ['+'] => .error .invalidDigit
  | ['-'] => .error .invalidDigit
  | '+' :: digits => range.readUp base 0 digits
  | '-' :: digits =>
    if range.least < 0 then range.readDown base 0 digits else .error .invalidDigit
  | digits => range.readUp base 0 digits

/-- An integer in decimal digits. -/
def read (range : IntegerRange) (text : String) : Except IntegerFault Int :=
  range.readBase 10 text.toList

end IntegerRange

/-- The decimal digits of an integer, after a minus sign if it is negative. -/
def integerText (i : Int) : List Char :=
  if i < 0 then '-' :: Nat.toDigits 10 i.natAbs else Nat.toDigits 10 i.natAbs

end EntityQuery
