/-
EntityQuery/Proofs/Agreement.lean

Values that are read back.

A value takes three forms on its way: it is given as a literal, it lies in a
column, and it is answered.  A value of a standard scalar is answered as it
was given (`ScalarBinding.ReadsBack.output_stored`), provided that text is
given as text: a number given to the scalar `ID` is answered as a string,
although the column holds the number.

Sought again, such a value passes the coercion unchanged, as a literal and
through a variable (`ReadsBack.literal`, `ReadsBack.input`), and the test for
equality finds it in a cell exactly if the cell holds a value that agrees
with it (`ReadsBack.verdict_stored`).
-/
import EntityQuery.Proofs.Bound
import EntityQuery.Proofs.Magnitude

namespace EntityQuery

namespace ScalarBinding

/-- Whether an answered value is the value that is sought: documents by their
JSON text, numbers by value, anything else by equality. -/
def agrees (b : ScalarBinding) (sought answered : Json) : Bool :=
  if b.isPayload then answered.text = sought.text
  else
    match answered, sought with
    | .number m, .number n => m.units = n.units
    | .string s, .string t => s = t
    | .bool p, .bool q => p = q
    | _, _ => false

/-- What is assumed of a value that is given to a field of the scalar: it is
accepted as a literal, text is given as text, and the JSON text of a document
reads back. -/
structure ReadsBack (b : ScalarBinding) (value : Json) : Prop where
  accepted : ∃ v, b.coercion.literal value = .ok v
  textual : b.kind = .text → ∀ n, value ≠ .number n
  document : b.isPayload = true → Json.read? value.text = some value

/-- The value is of the type that literals of the family have. -/
def OfKind (kind : ScalarKind) (value : Json) : Prop :=
  match kind with
  | .text | .date | .dateTime => ∃ s, value = .string s
  | .integer => ∃ i, value = .number (.int i)
  | .float => ∃ n, value = .number n
  | .boolean => ∃ p, value = .bool p
  | .payload => True

end ScalarBinding

/-! ### Plain scalars -/

namespace Coercion

open ScalarBinding

variable {scalar : String} {kind : ScalarKind} {value v : Json}

theorem check_of_not_null (lenient : Bool) (some : value.isNull = false) :
    check scalar kind lenient value =
      match kind with
      | .text => checkText scalar lenient value
      | .integer => checkInteger scalar lenient value
      | .float => checkFloat scalar lenient value
      | .boolean => checkBoolean scalar lenient value
      | .date => checkDate scalar value
      | .dateTime => checkDateTime scalar value
      | .payload => .ok value := by
  have present : ¬ value.isNull = true := by simp [some]
  cases kind <;> exact if_neg present

/-- A literal that is accepted is of its family, apart from a number for
text. -/
theorem ofKind_of_check (h : check scalar kind false value = .ok v)
    (textual : kind = .text → ∀ n, value ≠ .number n) (some : value.isNull = false) :
    OfKind kind value := by
  -- Apart from payloads a kind takes values of its own form alone, once numbers
  -- are not taken as texts.
  rw [check_of_not_null false some] at h
  cases kind
  case text =>
    cases value
    case string s => exact ⟨s, rfl⟩
    case number n => exact absurd rfl (textual rfl n)
    all_goals cases h
  case integer =>
    cases value
    case number n =>
      cases n with
      | int i => exact ⟨i, rfl⟩
      | float x finite => cases h
    all_goals cases h
  case float =>
    cases value
    case number n => exact ⟨n, rfl⟩
    all_goals cases h
  case boolean =>
    cases value
    case bool p => exact ⟨p, rfl⟩
    all_goals cases h
  case date | dateTime =>
    cases value
    case string s => exact ⟨s, rfl⟩
    all_goals cases h
  case payload => trivial

/-- A value of the family of an accepted literal passes every check of the
scalar unchanged. -/
theorem check_eq_self (h : check scalar kind false value = .ok v)
    (textual : kind = .text → ∀ n, value ≠ .number n) (some : value.isNull = false)
    (lenient : Bool) : check scalar kind lenient value = .ok value := by
  have shape := ofKind_of_check h textual some
  rw [check_of_not_null _ some] at h ⊢
  cases kind
  case text | integer | float | boolean =>
    obtain ⟨_, rfl⟩ := shape
    rfl
  case date =>
    obtain ⟨s, rfl⟩ := shape
    simp only [checkDate] at h ⊢
    split at h
    · rfl
    · cases h
  case dateTime =>
    obtain ⟨s, rfl⟩ := shape
    simp only [checkDateTime] at h ⊢
    split at h
    · rfl
    · cases h
  case payload => rfl

/-- Stored truth values are answered by the check too, since they are no
numbers. -/
theorem output_plain (shape : OfKind kind value) :
    output (.plain scalar kind) value = check scalar kind true value := by
  cases kind
  case boolean =>
    obtain ⟨p, rfl⟩ := shape
    rfl
  all_goals rfl

end Coercion

namespace Store

open ScalarBinding

/-- Values of one family are equal in a comparison exactly if they agree. -/
theorem isEqual_of_ofKind {kind : ScalarKind} {cell sought : Json} (plain : kind ≠ .payload)
    (hc : OfKind kind cell) (hs : OfKind kind sought)
    (exact : ∀ m n, cell = .number m → sought = .number n → m.Comparable n)
    {b : ScalarBinding} (scalar : b.isPayload = false) :
    isEqual cell sought = b.agrees sought cell := by
  -- The comparison of the store and that of the scalar differ in how they spell
  -- equality of numbers and of texts; both are settled before the kinds.
  have numbers : ∀ m n, cell = .number m → sought = .number n →
      isEqual cell sought = b.agrees sought cell := by
    rintro m n rfl rfl
    simp only [agrees]
    rw [scalar]
    simp only [isEqual, compareValues]
    rw [compareNumbers_eq_compare (exact m n rfl rfl), Bool.eq_iff_iff]
    simp
  have strings : ∀ s t, cell = .string s → sought = .string t →
      isEqual cell sought = b.agrees sought cell := by
    rintro s t rfl rfl
    simp only [agrees]
    rw [scalar]
    simp only [isEqual, compareValues]
    rw [Bool.eq_iff_iff]
    simp
  cases kind
  case text | date | dateTime =>
    obtain ⟨s, rfl⟩ := hc
    obtain ⟨t, rfl⟩ := hs
    exact strings s t rfl rfl
  case integer =>
    obtain ⟨i, rfl⟩ := hc
    obtain ⟨j, rfl⟩ := hs
    exact numbers _ _ rfl rfl
  case float =>
    obtain ⟨m, rfl⟩ := hc
    obtain ⟨n, rfl⟩ := hs
    exact numbers _ _ rfl rfl
  case boolean =>
    obtain ⟨p, rfl⟩ := hc
    obtain ⟨q, rfl⟩ := hs
    simp only [agrees]
    rw [scalar]
    cases p <;> cases q <;> rfl
  case payload => exact absurd rfl plain

end Store

/-! ### Standard scalars -/

namespace ScalarBinding

open Comparison

/-- What the proofs use of a standard scalar: it is plain, or it holds
documents. -/
theorem Standard.cases {b : ScalarBinding} (standard : b.Standard) :
    (b.storage = .native ∧ b.coercion = .plain b.name b.kind ∧ b.kind ≠ .payload ∧
      b.isPayload = false) ∨
    (b.storage = .encoded ∧ b.coercion = .document ∧ b.isPayload = true) := by
  rcases standard with ordinary | ⟨name, description, rfl | rfl⟩
  · obtain ⟨native, coercion, plain⟩ := ordinary_plain b ordinary
    exact .inl ⟨native, coercion, plain, by simp [isPayload, plain]⟩
  · exact .inr ⟨rfl, rfl, rfl⟩
  · exact .inr ⟨rfl, rfl, rfl⟩

namespace ReadsBack

variable {b : ScalarBinding} {value : Json}

theorem literal (h : b.ReadsBack value) (standard : b.Standard) (some : value.isNull = false) :
    b.coercion.literal value = .ok value := by
  obtain ⟨v, accepted⟩ := h.accepted
  rcases standard.cases with ⟨-, coercion, -, -⟩ | ⟨-, coercion, -⟩
  · rw [coercion] at accepted ⊢
    exact Coercion.check_eq_self accepted h.textual some false
  · rw [coercion]
    rfl

theorem input (h : b.ReadsBack value) (standard : b.Standard) (some : value.isNull = false) :
    b.coercion.input value = .ok value := by
  obtain ⟨v, accepted⟩ := h.accepted
  rcases standard.cases with ⟨-, coercion, -, -⟩ | ⟨-, coercion, -⟩
  · rw [coercion] at accepted ⊢
    exact Coercion.check_eq_self accepted h.textual some true
  · rw [coercion]
    rfl

/-- A value is answered as it was given. -/
theorem output_stored (h : b.ReadsBack value) (standard : b.Standard)
    (some : value.isNull = false) : b.output (b.coercion.stored value) = .ok value := by
  obtain ⟨v, accepted⟩ := h.accepted
  simp only [output]
  rcases standard.cases with ⟨-, coercion, -, -⟩ | ⟨-, coercion, payload⟩
  · rw [coercion] at accepted ⊢
    rw [Coercion.stored, if_neg (by simp [some]),
      Coercion.output_plain (Coercion.ofKind_of_check accepted h.textual some)]
    exact Coercion.check_eq_self accepted h.textual some true
  · rw [coercion]
    show Except.ok ((Json.read? value.text).getD _) = _
    rw [h.document payload]
    rfl

/-- The test for equality with a value is true of a stored value exactly if
the two agree. -/
theorem verdict_stored {sought : Json} (h : b.ReadsBack value) (standard : b.Standard)
    (hs : b.ReadsBack sought) (some : value.isNull = false) (nonnull : sought.isNull = false)
    (exact : ∀ m n, value = .number m → sought = .number n → m.Comparable n) :
    Comparison.verdict b .eq sought (b.coercion.stored value) =
      .bool (b.agrees sought value) := by
  obtain ⟨v, accepted⟩ := h.accepted
  obtain ⟨w, accepted'⟩ := hs.accepted
  simp only [verdict, nonnull, Bool.false_eq_true, if_false, storedCell, storedValue]
  -- A scalar is either stored as it is, or written to text, where equal texts are equal documents.
  rcases standard.cases with ⟨native, coercion, plain, scalar⟩ | ⟨encoded, coercion, payload⟩
  · rw [coercion] at accepted accepted' ⊢
    simp only [native, Coercion.stored, Store.comparison, some, nonnull, Bool.or_self,
      Bool.false_eq_true, if_false]
    exact congrArg Json.bool (Store.isEqual_of_ofKind plain
      (Coercion.ofKind_of_check accepted h.textual some)
      (Coercion.ofKind_of_check accepted' hs.textual nonnull) exact scalar)
  · rw [coercion]
    simp only [encoded, Coercion.stored, agrees, payload]
    show Json.bool (Store.isEqual (.string value.text) (.string sought.text)) = _
    simp only [Store.isEqual, Store.compareValues]
    refine congrArg Json.bool (Bool.eq_iff_iff.2 ?_)
    simp

/-- No value is found in an empty cell, and null agrees with none. -/
theorem verdict_null {sought : Json} (hs : b.ReadsBack sought)
    (nonnull : sought.isNull = false) :
    Store.isTrue (Comparison.verdict b .eq sought .null) = false ∧
      b.agrees sought .null = false := by
  constructor
  · simp only [verdict, nonnull, storedCell]
    cases b.storage <;> rfl
  · simp only [agrees]
    split
    · next payload =>
      -- A document with the text of null would read back as null.
      refine decide_eq_false fun same => ?_
      have reads := hs.document payload
      rw [← same] at reads
      have null : (Json.read? (Json.text .null)).map Json.isNull = some true := by decide +kernel
      rw [reads, Option.map_some, nonnull] at null
      cases null
    · rfl

end ReadsBack

end ScalarBinding

end EntityQuery
