/-
EntityQuery/Proofs/Integers.lean

Integers that are given as text.

A store may hand an integer back as its digits, and a variable may give it so.
Digits are read from left to right and refused at the first one with which they
leave the range, so the digits of an integer are read as the integer if the
range has it, and as one that is too large or too small otherwise
(`IntegerRange.read_integerText`).  Blanks around them are not looked at
(`DigitsOf.trimmed`).

The range is that of 64 bits with a sign.  A number, on the other hand, may be
any integer of 64 bits, with a sign or without.  So the digits of an integer
stand for it below `2^63`, and from there on to `2^64 - 1` the number is taken
and its digits are refused (`quoted_integers`, `Sample.not_quoted`).
-/
import EntityQuery.Proofs.Aligned
import EntityQuery.Proofs.Exact

namespace EntityQuery

/-! ### Blanks around a text -/

namespace Text

variable {before text after : List Char}

theorem trimStart_append (blank : ∀ c ∈ before, isBlank c = true) (rest : List Char) :
    trimStart (before ++ rest) = trimStart rest :=
  List.dropWhile_append_of_pos blank

theorem trimStart_of_solid (some_text : text ≠ []) (solid : ∀ c ∈ text, isBlank c = false)
    (rest : List Char) : trimStart (text ++ rest) = text ++ rest := by
  obtain ⟨c, cs, rfl⟩ := List.exists_cons_of_ne_nil some_text
  have first : ¬isBlank c = true := by simp [solid c List.mem_cons_self]
  exact List.dropWhile_cons_of_neg first

/-- A text without blanks is what is left of it with blanks around it. -/
theorem trim_between (front : ∀ c ∈ before, isBlank c = true) (some_text : text ≠ [])
    (solid : ∀ c ∈ text, isBlank c = false) (back : ∀ c ∈ after, isBlank c = true) :
    trim (before ++ text ++ after) = text := by
  have back' : ∀ c ∈ after.reverse, isBlank c = true := fun c hc => back c (List.mem_reverse.1 hc)
  have solid' : ∀ c ∈ text.reverse, isBlank c = false := fun c hc =>
    solid c (List.mem_reverse.1 hc)
  have last := trimStart_of_solid (List.reverse_ne_nil_iff.2 some_text) solid' []
  rw [List.append_nil] at last
  rw [trim, List.append_assoc, trimStart_append front, trimStart_of_solid some_text solid,
    List.reverse_append, trimStart_append back', last, List.reverse_reverse]

end Text

/-- The text is the digits of an integer, with blanks around them or without. -/
def DigitsOf (i : Int) (s : String) : Prop :=
  ∃ before after, (∀ c ∈ before, Text.isBlank c = true) ∧ (∀ c ∈ after, Text.isBlank c = true) ∧
    s.toList = before ++ integerText i ++ after

theorem integerText_ne_nil (i : Int) : integerText i ≠ [] := by
  rw [integerText]
  split
  · exact List.cons_ne_nil _ _
  · exact Nat.toDigits_ne_nil

theorem isBlank_of_mem_integerText {i : Int} : ∀ c ∈ integerText i, Text.isBlank c = false := by
  have digits : ∀ c ∈ Nat.toDigits 10 i.natAbs, Text.isBlank c = false := fun c hc =>
    Calendar.isBlank_isDigit ((Sql.digits_toDigits _).2 c hc)
  rw [integerText]
  split
  · exact List.forall_mem_cons.2 ⟨rfl, digits⟩
  · exact digits

/-- What is left of digits between blanks is the usual spelling. -/
theorem DigitsOf.trimmed {i : Int} {s : String} (h : DigitsOf i s) :
    Text.trimmed s = String.ofList (integerText i) := by
  obtain ⟨before, after, front, back, written⟩ := h
  rw [Text.trimmed, written,
    Text.trim_between front (integerText_ne_nil i) isBlank_of_mem_integerText back]

/-! ### Reading digits -/

/-- The fault on the other side of zero. -/
def IntegerFault.mirror : IntegerFault → IntegerFault
  | .tooLarge => .tooSmall
  | .tooSmall => .tooLarge
  | other => other

namespace IntegerRange

/-- The range on the other side of zero. -/
def mirror (range : IntegerRange) : IntegerRange := ⟨-range.greatest, -range.least⟩

variable {range : IntegerRange} {ds : List Char}

/-- Reading downwards is reading upwards on the other side of zero. -/
theorem readDown_eq_mirror (base : Nat) (value : Int) (cs : List Char) :
    range.readDown base value cs =
      ((range.mirror.readUp base (-value) cs).map (-·)).mapError IntegerFault.mirror := by
  induction cs generalizing value with
  | nil =>
    rw [readDown, readUp]
    exact congrArg Except.ok (neg_neg value).symm
  | cons c cs ih =>
    rw [readDown, readUp]
    cases digitValue? base c with
    | none => rfl
    | some d =>
      -- Counting down is counting up on the other side of zero, with the bounds exchanged.
      have next : -value * base + d = -(value * base - d) := by
        rw [Int.neg_mul]
        omega
      have beyond : range.mirror.greatest < -(value * base - d) ↔ value * base - d < range.least :=
        neg_lt_neg_iff
      dsimp only
      rw [next, ih]
      simp only [beyond]
      split <;> rfl

/-- Further digits do not make a number less. -/
theorem le_ofDigitChars (n : Nat) (ds : List Char) : n ≤ Nat.ofDigitChars 10 ds n := by
  induction ds generalizing n with
  | nil => rw [Nat.ofDigitChars_nil]
  | cons c ds ih =>
    rw [Nat.ofDigitChars_cons]
    exact le_trans (by omega) (ih _)

/-- More digits are read if the number that they make is still in the range. -/
theorem readUp_digits (digits : ∀ c ∈ ds, c.isDigit = true) {n : Nat}
    (within : (n : Int) ≤ range.greatest) :
    range.readUp 10 n ds =
      if range.greatest < (Nat.ofDigitChars 10 ds n : Int) then .error .tooLarge
      else .ok (Nat.ofDigitChars 10 ds n : Int) := by
  induction ds generalizing n with
  | nil => rw [readUp, Nat.ofDigitChars_nil, if_neg (Int.not_lt.2 within)]
  | cons c ds ih =>
    obtain ⟨digit, digits⟩ := List.forall_mem_cons.1 digits
    have next : (n : Int) * (10 : Nat) + (Document.digitOf c : Nat) =
        (10 * n + (c.toNat - '0'.toNat) : Nat) := by
      rw [Document.digitOf]
      omega
    rw [readUp, Document.digitValue?_isDigit digit, Nat.ofDigitChars_cons]
    dsimp only
    rw [next]
    split
    · next beyond =>
      -- What comes after the digit makes the number no smaller.
      have grows := le_ofDigitChars (10 * n + (c.toNat - '0'.toNat)) ds
      rw [if_pos (lt_of_lt_of_le beyond (Int.ofNat_le.2 grows))]
    · next inside => exact ih digits (Int.not_lt.1 inside)

/-- A text without a sign is read upwards. -/
theorem readBase_digits (h : Sql.Digits ds) : range.readBase 10 ds = range.readUp 10 0 ds := by
  rw [readBase.eq_def]
  split
  · exact absurd rfl h.1
  · exact absurd (h.2 '+' List.mem_cons_self) (by decide)
  · exact absurd (h.2 '-' List.mem_cons_self) (by decide)
  · exact absurd (h.2 '+' List.mem_cons_self) (by decide)
  · exact absurd (h.2 '-' List.mem_cons_self) (by decide)
  · rfl

theorem readBase_minus (h : Sql.Digits ds) (below : range.least < 0) :
    range.readBase 10 ('-' :: ds) = range.readDown 10 0 ds := by
  obtain ⟨c, cs, rfl⟩ := List.exists_cons_of_ne_nil h.1
  exact if_pos below

/-- The digits of an integer are read as the integer, if the range has it. -/
theorem read_integerText (below : range.least < 0) (above : 0 ≤ range.greatest) (i : Int) :
    range.read (String.ofList (integerText i)) =
      if range.greatest < i then .error .tooLarge
      else if i < range.least then .error .tooSmall
      else .ok i := by
  have digits := Sql.digits_toDigits i.natAbs
  have value : Nat.ofDigitChars 10 (Nat.toDigits 10 i.natAbs) 0 = i.natAbs :=
    Sql.digitsNumber_toDigits _
  rw [read, String.toList_ofList, integerText]
  -- Below zero the digits are read downwards from the sign, and the lower bound decides.
  split
  · next negative =>
    have start : ((0 : Nat) : Int) ≤ range.mirror.greatest := by
      show 0 ≤ -range.least
      omega
    have opposite : -(i.natAbs : Int) = i := by omega
    have beyond : range.mirror.greatest < i.natAbs ↔ i < range.least := by
      show -range.least < _ ↔ _
      omega
    have read := readUp_digits digits.2 start
    rw [value] at read
    rw [readBase_minus digits below, readDown_eq_mirror]
    show ((range.mirror.readUp 10 ((0 : Nat) : Int) _).map _).mapError _ = _
    rw [read, if_neg (by omega : ¬range.greatest < i)]
    simp only [beyond]
    split
    · rfl
    · exact congrArg Except.ok opposite
  · next positive =>
    have same : (i.natAbs : Int) = i := by omega
    have start : ((0 : Nat) : Int) ≤ range.greatest := above
    have read := readUp_digits digits.2 start
    rw [value, same] at read
    rw [readBase_digits digits, if_neg (by omega : ¬i < range.least)]
    exact read

end IntegerRange

/-! ### Integers as numbers and as text -/

namespace Coercion

variable {scalar s : String} {i : Int}

/-- The digits of an integer, where numbers may be given as text. -/
theorem checkInteger_digitsOf (h : DigitsOf i s) :
    checkInteger scalar true (.string s) =
      if 2 ^ 63 ≤ i then .error (.invalidFormat scalar s IntegerFault.tooLarge.message)
      else if i < -2 ^ 63 then .error (.invalidFormat scalar s IntegerFault.tooSmall.message)
      else .ok (.ofInt i) := by
  have large : IntegerRange.int64.greatest < i ↔ 2 ^ 63 ≤ i := by
    show 9223372036854775807 < i ↔ _
    omega
  have small : i < IntegerRange.int64.least ↔ i < -2 ^ 63 := by
    show i < -9223372036854775808 ↔ _
    omega
  have read : IntegerRange.int64.read (String.ofList (integerText i)) = _ :=
    IntegerRange.read_integerText (by decide) (by decide) i
  simp only [large, small] at read
  simp only [checkInteger, if_true]
  rw [h.trimmed]
  by_cases beyond : 2 ^ 63 ≤ i
  · rw [if_pos beyond] at read ⊢
    rw [read]
  · rw [if_neg beyond] at read ⊢
    by_cases below : i < -2 ^ 63
    · rw [if_pos below] at read ⊢
      rw [read]
    · rw [if_neg below] at read ⊢
      rw [read]

/-- **Digits stand for an integer below `2^63`.**  Every integer of 64 bits, with
a sign or without, is taken as a number, from variables and from the store.
Its digits, with blanks around them or without, are taken for the same number
exactly if it is of 64 bits with a sign; from `2^63` on they are refused as too
large. -/
theorem quoted_integers (scalar : String) (admitted : Store.Admitted i) (digits : DigitsOf i s) :
    let c := Coercion.plain scalar .integer
    let refused := CoercionError.invalidFormat scalar s "number too large to fit in target type"
    (c.input (.ofInt i) = .ok (.ofInt i) ∧ c.output (.ofInt i) = .ok (.ofInt i)) ∧
    (c.input (.string s) = c.input (.ofInt i) ↔ i < 2 ^ 63) ∧
    (c.output (.string s) = c.output (.ofInt i) ↔ i < 2 ^ 63) ∧
    (2 ^ 63 ≤ i →
      c.input (.string s) = .error refused ∧ c.output (.string s) = .error refused) := by
  intro c refused
  have itself : c.input (.ofInt i) = .ok (.ofInt i) := rfl
  have itself' : c.output (.ofInt i) = .ok (.ofInt i) := rfl
  -- Variables and stored values go through the same check.
  have given : c.input (.string s) = if 2 ^ 63 ≤ i then .error refused else .ok (.ofInt i) := by
    show checkInteger scalar true (.string s) = _
    rw [checkInteger_digitsOf digits, if_neg (Int.not_lt.2 admitted.1)]
    rfl
  have stored : c.output (.string s) = c.input (.string s) := rfl
  have same : c.input (.string s) = .ok (.ofInt i) ↔ i < 2 ^ 63 := by
    rw [given]
    split
    · next large => exact iff_of_false nofun (Int.not_lt.2 large)
    · next small => exact iff_of_true rfl (Int.not_le.1 small)
  rw [itself, itself', stored]
  refine ⟨⟨rfl, rfl⟩, same, same, fun large => ?_⟩
  rw [given, if_pos large]
  exact ⟨rfl, rfl⟩

end Coercion

/-! ### Weights of parcels -/

namespace Sample

/-- The answer for a parcel whose weight lies in its column in this form. -/
def weighed (weight : Json) : Except ExecutionError Json :=
  let tables : Tables := [("parcels", [[("number", .ofInt 1), ("weight", weight)]])]
  (Executor.executeRoot ⟨depot, none⟩ (fun q => (pure (tables.run q) : Id _)) []
    (allParcels [leaf "weight"])).run

/-- The digits of `2^63` are refused, although the number is taken, and a parcel
with this weight is answered or not by how the store hands the weight back. -/
theorem not_quoted :
    ¬(∀ (scalar : String) (i : Int) (s : String), Store.Admitted i → DigitsOf i s →
      (Coercion.plain scalar .integer).input (.string s) =
          (Coercion.plain scalar .integer).input (.ofInt i) ∧
        (Coercion.plain scalar .integer).output (.string s) =
          (Coercion.plain scalar .integer).output (.ofInt i)) ∧
    weighed (.ofInt 9223372036854775808) =
      .ok (.object [("select", .array [.object [("weight", .ofInt 9223372036854775808)]])]) ∧
    weighed (.string "9223372036854775808") = .error (.decode ⟨"weight",
      "Invalid Long value '9223372036854775808': number too large to fit in target type"⟩) ∧
    weighed (.string "9223372036854775807") =
      .ok (.object [("select", .array [.object [("weight", .ofInt 9223372036854775807)]])]) := by
  refine ⟨fun same => ?_, rfl, rfl, rfl⟩
  have digits : DigitsOf 9223372036854775808 "9223372036854775808" :=
    ⟨[], [], List.forall_mem_nil _, List.forall_mem_nil _, rfl⟩
  have read := (same "Long" _ _ ⟨by decide, by decide⟩ digits).1
  cases read

end Sample

/-- The greatest integer of 64 bits with a sign, between blanks, and the one
after it. -/
theorem Coercion.quoted_integers_long :
    DigitsOf 9223372036854775807 " 9223372036854775807\n" ∧
      (Coercion.plain "Long" .integer).output (.string " 9223372036854775807\n") =
        .ok (.ofInt 9223372036854775807) ∧
      (Coercion.plain "Long" .integer).input (.string "9223372036854775808") =
        .error (.invalidFormat "Long" "9223372036854775808"
          "number too large to fit in target type") := by
  have greatest : DigitsOf 9223372036854775807 " 9223372036854775807\n" :=
    ⟨[' '], ['\n'], List.forall_mem_singleton.2 rfl, List.forall_mem_singleton.2 rfl, rfl⟩
  have next : DigitsOf 9223372036854775808 "9223372036854775808" :=
    ⟨[], [], List.forall_mem_nil _, List.forall_mem_nil _, rfl⟩
  obtain ⟨⟨-, itself⟩, -, taken, -⟩ :=
    Coercion.quoted_integers "Long" ⟨by decide, by decide⟩ greatest
  obtain ⟨-, -, -, refused⟩ := Coercion.quoted_integers "Long" ⟨by decide, by decide⟩ next
  exact ⟨greatest, (taken.2 (by decide)).trans itself, (refused (by decide)).1⟩

end EntityQuery
