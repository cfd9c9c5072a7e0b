/-
EntityQuery/Proofs/Quoting.lean

What a database reads where a constant stands in SQL text.

A database reads a quoted string from its opening quote on: a backslash takes
the next character with it, and the first quote that is not taken closes the
string (`scanQuoted`).  Whatever a string contains, its quoted form is read to
its last character and not further, and decodes to the string
(`scanQuoted_quoted`); nothing in a string can end it early.

The escapes are one for each character.  Putting them in one kind after the
other gives the same, as long as the backslash comes first
(`escape_eq_replacements`).

A number is written as a decimal numeral of its value, without a power of ten
(`numeral_numberText`): wherever the point of a decimal goes, the digits before
and after it stand for the same number (`unsigned_positional`).  So a constant
that is no list and no document has one of four forms, and says what the value
is (`spells_constant`).
-/
import EntityQuery.Sql.Quote
import Mathlib.Algebra.Field.Rat
import Mathlib.Algebra.Order.Field.Rat
import Mathlib.Data.List.Basic

namespace EntityQuery

/-- A value that is no list and no document. -/
def Json.Atomic : Json → Prop
  | .array _ => False
  | .object _ => False
  | _ => True

/-- The number that a decimal stands for. -/
def Decimal.value (d : Decimal) : ℚ := d.digits * 10 ^ d.exponent

/-- The number that is written for a number: an integer itself, and for a double
the shortest decimal that reads back as it. -/
def JsonNumber.written : JsonNumber → ℚ
  | .int i => i
  | .float x _ => if x.negative then -(x.shortest .up).value else (x.shortest .up).value

namespace Sql

/-! ### Reading quoted strings -/

/-- What an escape stands for: the character that it names, or else the
backslash and the character themselves. -/
def decodeEscape (c : Char) : List Char :=
  if c = '\\' then ['\\']
  else if c = '\'' then ['\'']
  else if c = 'n' then ['\n']
  else if c = 'r' then ['\r']
  else if c = 't' then ['\t']
  else if c = '0' then ['\x00']
  else ['\\', c]

/-- The inside of a quoted string, decoded, and the text after its closing
quote. -/
def scanInside : List Char → Option (List Char × List Char)
  | [] => none
  | '\\' :: [] => none
  | '\\' :: c :: rest => (scanInside rest).map fun read => (decodeEscape c ++ read.1, read.2)
  | c :: rest =>
    if c = '\'' then some ([], rest)
    else (scanInside rest).map fun read => (c :: read.1, read.2)

/-- The string that a text begins with, and the text after it. -/
def scanQuoted : List Char → Option (List Char × List Char)
  | [] => none
  | c :: rest => if c = '\'' then scanInside rest else none

/-- One character is read back from its escape. -/
theorem scanInside_escapeChar (c : Char) (rest : List Char) :
    scanInside (escapeChar c ++ rest) =
      (scanInside rest).map fun read => (c :: read.1, read.2) := by
  simp only [escapeChar]
  split
  · next h => subst h; rfl
  split
  · next h => subst h; rfl
  split
  · next h => subst h; rfl
  split
  · next h => subst h; rfl
  split
  · next h => subst h; rfl
  split
  · next h => subst h; rfl
  · -- Any other character stands for itself.
    next backslash quote _ _ _ _ =>
    rw [List.singleton_append, scanInside, if_neg quote]
    · rintro rfl
      exact fun _ => backslash rfl
    · rintro d rest' rfl
      exact fun _ => backslash rfl

/-- What was escaped is read back up to the quote. -/
theorem scanInside_escape (text rest : List Char) :
    scanInside (escape text ++ '\'' :: rest) = some (text, rest) := by
  induction text with
  | nil => rfl
  | cons c text ih =>
    show scanInside (List.flatMap escapeChar (c :: text) ++ _) = _
    rw [List.flatMap_cons, List.append_assoc, scanInside_escapeChar]
    show (scanInside (escape text ++ '\'' :: rest)).map _ = _
    rw [ih]
    rfl

/-- A quoted string is read to its last character, whatever stands in it and
whatever follows it. -/
theorem scanQuoted_quoted (s : String) (rest : List Char) :
    scanQuoted (quoted s ++ rest) = some (s.toList, rest) := by
  show scanInside ((escape s.toList ++ ['\'']) ++ rest) = _
  rw [List.append_assoc]
  exact scanInside_escape s.toList rest

/-! ### Escapes, one kind after the other -/

/-- Every occurrence of a character replaced. -/
def replaceChar (c : Char) (replacement : List Char) (text : List Char) : List Char :=
  text.flatMap fun d => if d = c then replacement else [d]

/-- The escapes of all characters are put in by six replacements in a row, that
of the backslash before those that put backslashes in. -/
theorem escape_eq_replacements (text : List Char) :
    escape text =
      (replaceChar '\x00' ['\\', '0'] <| replaceChar '\t' ['\\', 't'] <|
        replaceChar '\r' ['\\', 'r'] <| replaceChar '\n' ['\\', 'n'] <|
        replaceChar '\'' ['\\', '\''] <| replaceChar '\\' ['\\', '\\'] text) := by
  -- Both sides go through the text once, so it is enough to look at one character.
  simp only [escape, replaceChar]
  simp only [List.flatMap_assoc]
  congr 1
  funext c
  simp only [escapeChar]
  split
  · next h => subst h; rfl
  split
  · next h => subst h; rfl
  split
  · next h => subst h; rfl
  split
  · next h => subst h; rfl
  split
  · next h => subst h; rfl
  split
  · next h => subst h; rfl
  · next _ quote feed ret tab nul => simp [quote, feed, ret, tab, nul]

/-! ### Numerals -/

/-- Digits, at least one. -/
def Digits (text : List Char) : Prop := text ≠ [] ∧ ∀ c ∈ text, c.isDigit = true

/-- The natural number in digits. -/
def digitsNumber (ds : List Char) : Nat := Nat.ofDigitChars 10 ds 0

/-- Digits, and digits after a point or not, with the number that they say. -/
inductive Unsigned : List Char → ℚ → Prop
  | whole {ds : List Char} (digits : Digits ds) : Unsigned ds (digitsNumber ds)
  | fraction {ds fs : List Char} (digits : Digits ds) (more : Digits fs) :
      Unsigned (ds ++ '.' :: fs) (digitsNumber (ds ++ fs) / 10 ^ fs.length)

/-- A decimal numeral, after one minus sign or none, with its value. -/
inductive Numeral : List Char → ℚ → Prop
  | positive {text : List Char} {v : ℚ} (unsigned : Unsigned text v) : Numeral text v
  | negative {text : List Char} {v : ℚ} (unsigned : Unsigned text v) : Numeral ('-' :: text) (-v)

theorem digits_toDigits (n : Nat) : Digits (Nat.toDigits 10 n) :=
  ⟨Nat.toDigits_ne_nil, fun _ hc =>
    Nat.isDigit_of_mem_toDigits (b := 10) (by decide) (by decide) hc⟩

/-- The digits of a number read back as the number. -/
theorem digitsNumber_toDigits (n : Nat) : digitsNumber (Nat.toDigits 10 n) = n :=
  Nat.ofDigitChars_ten_toDigits

/-- Zeros behind digits multiply by powers of ten. -/
theorem digitsNumber_append_zeros (ds : List Char) (k : Nat) :
    digitsNumber (ds ++ List.replicate k '0') = digitsNumber ds * 10 ^ k := by
  simp only [digitsNumber]
  rw [Nat.ofDigitChars_append, Nat.ofDigitChars_replicate_zero, Nat.mul_comm]

/-- Zeros in front change nothing. -/
theorem digitsNumber_zeros_append (ds : List Char) (k : Nat) :
    digitsNumber (List.replicate k '0' ++ ds) = digitsNumber ds := by
  simp only [digitsNumber]
  rw [Nat.ofDigitChars_append, Nat.ofDigitChars_replicate_zero, Nat.mul_zero]

theorem Digits.append {ds fs : List Char} (hd : Digits ds) (hf : ∀ c ∈ fs, c.isDigit = true) :
    Digits (ds ++ fs) :=
  ⟨fun e => hd.1 (List.append_eq_nil_iff.1 e).1, List.forall_mem_append.2 ⟨hd.2, hf⟩⟩

theorem Digits.prepend {ds fs : List Char} (hd : Digits ds) (hf : ∀ c ∈ fs, c.isDigit = true) :
    Digits (fs ++ ds) :=
  ⟨fun e => hd.1 (List.append_eq_nil_iff.1 e).2, List.forall_mem_append.2 ⟨hf, hd.2⟩⟩

theorem isDigit_of_mem_replicate {n : Nat} {c : Char} (h : c ∈ List.replicate n '0') :
    c.isDigit = true := by
  rw [List.eq_of_mem_replicate h]
  rfl

/-- A negative power of ten is a fraction. -/
theorem mul_zpow_neg (n m : Nat) {e : Int} (h : e = -m) : (n : ℚ) * 10 ^ e = n / 10 ^ m := by
  rw [h, zpow_neg, zpow_natCast, div_eq_mul_inv]

/-- Digits with a point somewhere need no sign, and keep their value. -/
theorem unsigned_positional {digits : List Char} (hd : Digits digits) (e : Int) :
    Unsigned (numberLayout.positional digits (digits.length + e))
      (digitsNumber digits * 10 ^ e) := by
  simp only [DecimalLayout.positional]
  split
  · next behindAll =>
    -- All digits are behind the point, after some zeros.
    have zero : Digits ['0'] := ⟨List.cons_ne_nil _ _, List.forall_mem_singleton.2 rfl⟩
    have behind : Digits (List.replicate (-(digits.length + e)).toNat '0' ++ digits) :=
      hd.prepend fun c hc => isDigit_of_mem_replicate hc
    have places : e =
        -((List.replicate (-(digits.length + e)).toNat '0' ++ digits).length : Nat) := by
      rw [List.length_append, List.length_replicate]
      omega
    have same := digitsNumber_zeros_append digits ((-(digits.length + e)).toNat + 1)
    rw [mul_zpow_neg _ _ places, ← same]
    exact .fraction zero behind
  split
  · -- The point stands among the digits.
    next positive inside =>
    have before : Digits (digits.take (digits.length + e).toNat) := by
      refine ⟨fun e => ?_, fun c hc => hd.2 c (List.mem_of_mem_take hc)⟩
      rcases List.take_eq_nil_iff.1 e with none | none
      · omega
      · exact hd.1 none
    have behind : Digits (digits.drop (digits.length + e).toNat) := by
      refine ⟨fun e => ?_, fun c hc => hd.2 c (List.mem_of_mem_drop hc)⟩
      have := List.drop_eq_nil_iff.1 e
      omega
    have places : e = -((digits.drop (digits.length + e).toNat).length : Nat) := by
      rw [List.length_drop]
      omega
    have fraction := Unsigned.fraction before behind
    rwa [List.take_append_drop, ← mul_zpow_neg _ _ places] at fraction
  · -- All digits are before the point, which is left out.
    next positive outside =>
    have places : e = ((digits.length + e).toNat - digits.length : Nat) := by omega
    have zeros : ∀ c ∈ List.replicate ((digits.length + e).toNat - digits.length) '0',
        c.isDigit = true := fun c hc => isDigit_of_mem_replicate hc
    have whole := Unsigned.whole (hd.append zeros)
    rw [digitsNumber_append_zeros, Nat.cast_mul, Nat.cast_pow, ← zpow_natCast, ← places] at whole
    rw [show numberLayout.keepFraction = false from rfl, if_neg Bool.false_ne_true,
      List.append_nil]
    exact whole

/-- An integer is written as its numeral. -/
theorem numeral_integerText (i : Int) : Numeral (integerText i) i := by
  simp only [integerText]
  have magnitude := Unsigned.whole (digits_toDigits i.natAbs)
  rw [digitsNumber_toDigits] at magnitude
  split
  · next negative =>
    have opposite : i = -(i.natAbs : Int) := by omega
    have value : (i : ℚ) = -(i.natAbs : ℚ) := by
      rw [← Int.cast_natCast, ← Int.cast_neg, ← opposite]
    rw [value]
    exact .negative magnitude
  · next nonnegative =>
    have itself : i = (i.natAbs : Int) := by omega
    have value : (i : ℚ) = (i.natAbs : ℚ) := by
      rw [← Int.cast_natCast, ← itself]
    rw [value]
    exact .positive magnitude

/-- A number is written as a numeral of its value. -/
theorem numeral_numberText (n : JsonNumber) : Numeral (numberText n) n.written := by
  cases n with
  | int i => exact numeral_integerText i
  | float x finite =>
    have magnitude := unsigned_positional (digits_toDigits (x.shortest .up).digits)
      (x.shortest .up).exponent
    rw [digitsNumber_toDigits] at magnitude
    show Numeral (doubleText x) _
    simp only [doubleText, DecimalLayout.write, JsonNumber.written, Decimal.value]
    rw [if_pos finite]
    dsimp only [numberLayout]
    split
    · exact .negative magnitude
    · exact .positive magnitude

/-! ### Constants -/

/-- A text in which a database reads the value, and nothing after it. -/
inductive Spells : Json → List Char → Prop
  | null : Spells .null ['N', 'U', 'L', 'L']
  | bool (b : Bool) : Spells (.bool b) [if b then '1' else '0']
  | number {n : JsonNumber} {text : List Char} (numeral : Numeral text n.written) :
      Spells (.number n) text
  | string {s : String} {text : List Char}
      (scan : ∀ rest, scanQuoted (text ++ rest) = some (s.toList, rest)) : Spells (.string s) text

/-- The constant of a value that is no list and no document is `NULL`, a
digit for a truth value, a numeral or a quoted string. -/
theorem spells_constant {value : Json} (h : value.Atomic) : Spells value (constant value) := by
  cases value with
  | null => exact .null
  | bool b => cases b <;> exact .bool _
  | number n => exact .number (numeral_numberText n)
  | string s => exact .string (scanQuoted_quoted s)
  | array items => exact h.elim
  | object members => exact h.elim

end Sql

end EntityQuery
