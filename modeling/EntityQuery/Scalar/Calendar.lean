/-
EntityQuery/Scalar/Calendar.lean

Dates and moments as text.

A date is `year-month-day` (`Date.read`).  A moment is either of the strict
internet form `year-month-day T hour:minute:second[.fraction] offset`
(`Moment.readStrict`) or of the loose form
`year-month-day hour:minute:second[.fraction]` without an offset
(`Moment.readLoose`), which is the form whose faults are reported.

In a date and in the loose form numbers may have fewer digits than their
width and blanks before them, and a year with a sign may be of any length.
-/
import EntityQuery.Number.DecimalText
import EntityQuery.Text.Blank

namespace EntityQuery

/-- What is wrong with the text of a date or moment. -/
inductive DateFault where
  | invalid
  | outOfRange
  | tooShort
  | trailing
deriving DecidableEq, Repr

/-- The wording of a fault. -/
def DateFault.message : DateFault → String
  | .invalid => "input contains invalid characters"
  | .outOfRange => "input is out of range"
  | .tooShort => "premature end of input"
  | .trailing => "trailing input"

/-! ### The calendar -/

/-- A day of the Gregorian calendar, extended to all years. -/
structure Date where
  year : Int
  month : Nat
  day : Nat
deriving DecidableEq, Repr

namespace Date

/-- Whether a year has a 29th of February. -/
def isLeapYear (year : Int) : Bool :=
  year % 4 = 0 && (year % 100 ≠ 0 || year % 400 = 0)

/-- The number of days of a month. -/
def daysIn (year : Int) (month : Nat) : Nat :=
  if month = 2 then (if isLeapYear year then 29 else 28)
  else if month = 4 ∨ month = 6 ∨ month = 9 ∨ month = 11 then 30
  else 31

/-- The first and the last year that dates reach. -/
def years : IntegerRange := ⟨-262143, 262142⟩

/-- Whether the day exists. -/
def exists? (d : Date) : Bool :=
  years.has d.year && 1 ≤ d.month && d.month ≤ 12 && 1 ≤ d.day && d.day ≤ daysIn d.year d.month

end Date

/-- A time of day; the sixtieth second is a leap second. -/
structure TimeOfDay where
  hour : Nat
  minute : Nat
  second : Nat
  nanosecond : Nat
deriving DecidableEq, Repr

/-- A date and a time of day, some seconds ahead of universal time. -/
structure Moment where
  date : Date
  time : TimeOfDay
  offset : Int
deriving DecidableEq, Repr

namespace Calendar

/-! ### Numbers and marks -/

/-- The value of a digit of ASCII. -/
def digit? (c : Char) : Option Nat := digitValue? 10 c

/-- The digits a text begins with, at most `width` of them, and the rest. -/
def takeDigits : Nat → List Char → List Nat × List Char
  | 0, text => ([], text)
  | _ + 1, [] => ([], [])
  | width + 1, c :: rest =>
    match digit? c with
    | none => ([], c :: rest)
    | some d => (d :: (takeDigits width rest).1, (takeDigits width rest).2)

/-- A number of `least` to `most` digits that fits 64 bits. -/
def number (least most : Nat) (text : List Char) : Except DateFault (Nat × List Char) :=
  if (text.foldl (fun n c => n + c.utf8Size) 0) < least then .error .tooShort
  else
    let (ds, rest) := takeDigits most text
    if ds.length < least then .error .invalid
    else if 9223372036854775808 ≤ digitsValue ds then .error .outOfRange
    else .ok (digitsValue ds, rest)

/-- A number of one or two digits in a range, after blanks. -/
def field (first last : Nat) (text : List Char) : Except DateFault (Nat × List Char) := do
  let (n, rest) ← number 1 2 (Text.trimStart text)
  if first ≤ n ∧ n ≤ last then return (n, rest) else throw .outOfRange

/-- A number of exactly `width` digits in a range. -/
def strictField (width first last : Nat) (text : List Char) :
    Except DateFault (Nat × List Char) := do
  let (n, rest) ← number width width text
  if first ≤ n ∧ n ≤ last then return (n, rest) else throw .outOfRange

/-- A mark that must stand at the beginning of a text. -/
def mark (c : Char) : List Char → Except DateFault (List Char)
  | [] => .error .tooShort
  | d :: rest => if d = c then .ok rest else .error .invalid

/-- A year after blanks: four digits at most without a sign, any number of
digits with one. -/
def year (text : List Char) : Except DateFault (Int × List Char) := do
  let (y, rest) ← match Text.trimStart text with
    | '-' :: digits => do
      let (n, rest) ← number 1 digits.length digits
      pure (-(n : Int), rest)
    | '+' :: digits => do
      let (n, rest) ← number 1 digits.length digits
      pure ((n : Int), rest)
    | digits => do
      let (n, rest) ← number 1 4 digits
      pure ((n : Int), rest)
  if -2147483648 ≤ y ∧ y ≤ 2147483647 then return (y, rest) else throw .outOfRange

/-- A fraction of a second after its point, in nanoseconds; digits past the
ninth are skipped. -/
def nanoseconds (text : List Char) : Except DateFault (Nat × List Char) := do
  let (n, rest) ← number 1 9 text
  let given := (takeDigits 9 text).1.length
  return (n * Nat.pow 10 (9 - given), (spanDigits rest).2)

/-- A fraction of a second, if a point is there. -/
def fraction (text : List Char) : Except DateFault (Nat × List Char) :=
  match text with
  | '.' :: rest => nanoseconds rest
  | rest => .ok (0, rest)

/-! ### Dates and times -/

/-- A date at the beginning of a text; the day may not exist. -/
def date (text : List Char) : Except DateFault (Date × List Char) := do
  let (y, rest) ← year text
  let rest ← mark '-' rest
  let (m, rest) ← field 1 12 rest
  let rest ← mark '-' rest
  let (d, rest) ← field 1 31 rest
  return (⟨y, m, d⟩, rest)

/-- A time of day at the beginning of a text. -/
def time (text : List Char) : Except DateFault (TimeOfDay × List Char) := do
  let (h, rest) ← field 0 23 text
  let rest ← mark ':' rest
  let (m, rest) ← field 0 59 rest
  let rest ← mark ':' rest
  let (s, rest) ← field 0 60 rest
  let (n, rest) ← fraction rest
  return (⟨h, m, s, n⟩, rest)

/-- A date in exactly ten characters. -/
def strictDate (text : List Char) : Except DateFault (Date × List Char) := do
  let (y, rest) ← number 4 4 text
  let rest ← mark '-' rest
  let (m, rest) ← strictField 2 1 12 rest
  let rest ← mark '-' rest
  let (d, rest) ← strictField 2 1 31 rest
  return (⟨y, m, d⟩, rest)

/-- A time of day with two digits for each number. -/
def strictTime (text : List Char) : Except DateFault (TimeOfDay × List Char) := do
  let (h, rest) ← strictField 2 0 23 text
  let rest ← mark ':' rest
  let (m, rest) ← strictField 2 0 59 rest
  let rest ← mark ':' rest
  let (s, rest) ← strictField 2 0 60 rest
  let (n, rest) ← fraction rest
  return (⟨h, m, s, n⟩, rest)

/-- The sign of an offset: whether it is behind universal time.  The minus
sign may be the typographic one. -/
def offsetSign : List Char → Except DateFault (Bool × List Char)
  | [] => .error .tooShort
  | c :: rest =>
    if c = '+' then .ok (false, rest)
    else if c = '-' ∨ c = '−' then .ok (true, rest)
    else .error .invalid

/-- An offset in seconds: the letter `Z`, or hours and minutes. -/
def offset (text : List Char) : Except DateFault (Int × List Char) :=
  match text with
  | 'Z' :: rest => .ok (0, rest)
  | 'z' :: rest => .ok (0, rest)
  | text => do
    let (behind, rest) ← offsetSign text
    let (h, rest) ← strictField 2 0 23 rest
    let rest ← mark ':' rest
    let (m, rest) ← strictField 2 0 59 rest
    let seconds : Int := h * 3600 + m * 60
    return (if behind then -seconds else seconds, rest)

/-- The text must be at its end. -/
def finish (text : List Char) : Except DateFault Unit :=
  if text.isEmpty then .ok () else .error .trailing

/-- The day must exist. -/
def existing (d : Date) : Except DateFault Unit :=
  if d.exists? then .ok () else .error .outOfRange

end Calendar

/-! ### Whole texts -/

/-- The date that a text is. -/
def Date.read (text : String) : Except DateFault Date := do
  let (d, rest) ← Calendar.date text.toList
  Calendar.finish rest
  Calendar.existing d
  return d

namespace Moment

/-- A mark between date and time: the letter `T` in either case, or a
space. -/
def isTimeMark (c : Char) : Bool := c = 'T' || c = 't' || c = ' '

/-- The moment of a text in the strict form. -/
def readStrict (text : String) : Except DateFault Moment := do
  let (d, rest) ← Calendar.strictDate text.toList
  let rest ← match rest with
    | [] => throw .tooShort
    | c :: rest => if isTimeMark c then pure rest else throw .invalid
  let (t, rest) ← Calendar.strictTime rest
  let (o, rest) ← Calendar.offset rest
  Calendar.finish rest
  Calendar.existing d
  return ⟨d, t, o⟩

/-- The moment of a text in the loose form, in universal time. -/
def readLoose (text : String) : Except DateFault Moment := do
  let (d, rest) ← Calendar.date text.toList
  let (t, rest) ← Calendar.time (Text.trimStart rest)
  Calendar.finish rest
  Calendar.existing d
  return ⟨d, t, 0⟩

/-- The moment of a text in either form. -/
def read (text : String) : Except DateFault Moment :=
  match readStrict text with
  | .ok m => .ok m
  | .error _ => readLoose text

end Moment

end EntityQuery
