/-
EntityQuery/Proofs/Pattern.lean

Patterns match piece by piece.

The texts that a pattern matches are a language (`Store.matched`).  The
matcher takes the pattern from the front, and each piece of it puts a language
in front of that of the rest: `%` all texts, `_` all single characters, and
any other piece the text of one character.  So a pattern that goes on with
another one matches the product of the two languages (`matched_append`).  This
needs every backslash to have its character (`Paired`): a backslash at the end
stands for itself, but with something after it for that.

A text in which the characters that mean something have a backslash before
them is a pattern for that text alone (`matched_literally`).  With `%` around
it, it is a pattern for the texts in which it occurs, which are those in which
the search finds it.
-/
import EntityQuery.Proofs.Substring
import EntityQuery.Proofs.Verdict
import Mathlib.Computability.Language

namespace EntityQuery.Store

variable {c d : Char} {p q text : List Char}

/-! ### The language of a pattern -/

/-- The texts that a pattern matches. -/
def matched (pattern : List Char) : Language Char := {text | likeChars pattern text = true}

/-- The texts of one character. -/
def singles : Language Char := {text | ∃ c, text = [c]}

/-- A wildcard tries every ending of a text. -/
theorem anyEnding_iff {accept : List Char → Bool} :
    anyEnding accept text = true ↔ ∃ before after, before ++ after = text ∧ accept after = true := by
  induction text with
  | nil =>
    constructor
    · intro h
      exact ⟨[], [], rfl, h⟩
    · rintro ⟨before, after, e, h⟩
      obtain ⟨-, rfl⟩ := List.append_eq_nil_iff.1 e
      exact h
  | cons c rest ih =>
    rw [anyEnding, Bool.or_eq_true, ih]
    constructor
    · rintro (h | ⟨before, after, rfl, h⟩)
      · exact ⟨[], c :: rest, rfl, h⟩
      · exact ⟨c :: before, after, rfl, h⟩
    · rintro ⟨before, after, e, h⟩
      -- The ending is the text itself or an ending of its rest.
      cases before with
      | nil =>
        obtain rfl : after = c :: rest := e
        exact .inl h
      | cons b before =>
        exact .inr ⟨before, after, (List.cons.inj e).2, h⟩

/-- One character in front of what a language holds. -/
theorem mem_singleton_mul {l : Language Char} :
    text ∈ ({[c]} : Language Char) * l ↔ ∃ rest, text = c :: rest ∧ rest ∈ l := by
  rw [Language.mem_mul]
  constructor
  · rintro ⟨_, rfl, rest, h, rfl⟩
    exact ⟨rest, rfl, h⟩
  · rintro ⟨rest, rfl, h⟩
    exact ⟨[c], rfl, rest, h, rfl⟩

theorem matched_nil : matched [] = 1 := by
  ext text
  show text.isEmpty = true ↔ text ∈ (1 : Language Char)
  rw [List.isEmpty_iff, Language.mem_one]

/-- A wildcard stands for any text. -/
theorem matched_any (p : List Char) : matched ('%' :: p) = ⊤ * matched p := by
  ext text
  show likeChars ('%' :: p) text = true ↔ _
  rw [likeChars, anyEnding_iff, Language.mem_mul]
  constructor
  · rintro ⟨before, after, e, h⟩
    exact ⟨before, trivial, after, h, e⟩
  · rintro ⟨before, -, after, h, e⟩
    exact ⟨before, after, e, h⟩

theorem matched_one (p : List Char) : matched ('_' :: p) = singles * matched p := by
  ext text
  show likeChars ('_' :: p) text = true ↔ _
  rw [Language.mem_mul]
  constructor
  · intro h
    cases text with
    | nil => cases h
    | cons c rest => exact ⟨[c], ⟨c, rfl⟩, rest, h, rfl⟩
  · rintro ⟨_, ⟨c, rfl⟩, rest, h, rfl⟩
    exact h

/-- A piece that takes one given character puts it in front. -/
theorem matched_eq_mul {pattern : List Char} (empty : likeChars pattern [] = false)
    (step : ∀ b rest, likeChars pattern (b :: rest) = (decide (b = c) && likeChars p rest)) :
    matched pattern = {[c]} * matched p := by
  ext text
  show likeChars pattern text = true ↔ _
  -- One character is taken off the text and off the pattern.
  rw [mem_singleton_mul]
  cases text with
  | nil => simp [empty]
  | cons b rest =>
    rw [step, Bool.and_eq_true, decide_eq_true_iff]
    constructor
    · rintro ⟨rfl, h⟩
      exact ⟨rest, rfl, h⟩
    · rintro ⟨rest', e, h⟩
      obtain ⟨rfl, rfl⟩ := List.cons.inj e
      exact ⟨rfl, h⟩

/-- An escaped character stands for itself. -/
theorem matched_escape (d : Char) (p : List Char) :
    matched ('\\' :: d :: p) = {[d]} * matched p :=
  matched_eq_mul rfl fun _ _ => rfl

/-- The character has a meaning in patterns. -/
def Meaningful (c : Char) : Prop := c = '%' ∨ c = '_' ∨ c = '\\'

instance (c : Char) : Decidable (Meaningful c) :=
  inferInstanceAs (Decidable (c = '%' ∨ c = '_' ∨ c = '\\'))

theorem matched_plain (plain : ¬ Meaningful c) (p : List Char) :
    matched (c :: p) = {[c]} * matched p := by
  obtain ⟨any, one, escape⟩ : c ≠ '%' ∧ c ≠ '_' ∧ c ≠ '\\' := by simpa [Meaningful] using plain
  refine matched_eq_mul ?_ fun b rest => ?_
  · simp [likeChars, escape]
  · simp [likeChars, escape]

/-! ### One pattern after another -/

/-- Every backslash in the pattern has a character after it of its own. -/
inductive Paired : List Char → Prop
  | nil : Paired []
  | escape (d : Char) {p : List Char} (rest : Paired p) : Paired ('\\' :: d :: p)
  | char {c : Char} {p : List Char} (other : c ≠ '\\') (rest : Paired p) : Paired (c :: p)

/-- **A pattern that goes on with another one matches what the two match one
after the other.** -/
theorem matched_append (h : Paired p) (q : List Char) : matched (p ++ q) = matched p * matched q := by
  induction h with
  | nil => rw [List.nil_append, matched_nil, one_mul]
  | escape d _ ih =>
    rw [List.cons_append, List.cons_append, matched_escape, matched_escape, ih, mul_assoc]
  | @char c p other _ ih =>
    rw [List.cons_append]
    by_cases any : c = '%'
    · rw [any, matched_any, matched_any, ih, mul_assoc]
    by_cases one : c = '_'
    · rw [one, matched_one, matched_one, ih, mul_assoc]
    · have plain : ¬ Meaningful c := by simp [Meaningful, any, one, other]
      rw [matched_plain plain, matched_plain plain, ih, mul_assoc]

/-- A backslash at the end stands for itself, but with a wildcard after it for
that. -/
example : like "%" ("\\" ++ "%") = true ∧ like "\\x" ("\\" ++ "%") = false := by decide

/-! ### Patterns for given texts -/

/-- The pattern that matches one character only. -/
def literalPiece (c : Char) : List Char := if Meaningful c then ['\\', c] else [c]

/-- The pattern that matches one text only: a backslash stands before every
character with a meaning. -/
def literally (text : String) : String := String.ofList (text.toList.flatMap literalPiece)

/-- Quoting a text pairs its escapes. -/
theorem paired_literalPieces (text : List Char) : Paired (text.flatMap literalPiece) := by
  induction text with
  | nil => exact .nil
  | cons c rest ih =>
    rw [List.flatMap_cons, literalPiece]
    split
    · exact .escape c ih
    · next plain => exact .char (fun e => plain (.inr (.inr e))) ih

theorem matched_literalPiece (c : Char) : matched (literalPiece c) = {[c]} := by
  rw [literalPiece]
  split
  · rw [matched_escape, matched_nil, mul_one]
  · next plain => rw [matched_plain plain, matched_nil, mul_one]

theorem paired_literalPiece (c : Char) : Paired (literalPiece c) := by
  have single := paired_literalPieces [c]
  rwa [List.flatMap_singleton] at single

/-- The pattern for a text matches nothing else. -/
theorem matched_literally (text : List Char) : matched (text.flatMap literalPiece) = {text} := by
  induction text with
  | nil => exact matched_nil
  | cons c rest ih =>
    rw [List.flatMap_cons, matched_append (paired_literalPiece c), matched_literalPiece, ih]
    ext text
    rw [mem_singleton_mul]
    constructor
    · rintro ⟨_, rfl, rfl⟩
      rfl
    · rintro rfl
      exact ⟨rest, rfl, rfl⟩

/-! ### Patterns as texts -/

/-- A text is like a pattern if it is in the language of the pattern. -/
theorem like_iff {t p : String} : like t p = true ↔ t.toList ∈ matched p.toList := Iff.rfl

/-- Behind paired escapes patterns match one after the other. -/
theorem like_append {t p q : String} (h : Paired p.toList) :
    like t (p ++ q) = true ↔ ∃ t₁ t₂, t = t₁ ++ t₂ ∧ like t₁ p = true ∧ like t₂ q = true := by
  rw [like_iff, String.toList_append, matched_append h, Language.mem_mul]
  constructor
  · rintro ⟨before, first, after, second, e⟩
    refine ⟨String.ofList before, String.ofList after, ?_, ?_, ?_⟩
    · rw [← String.toList_inj, String.toList_append, String.toList_ofList, String.toList_ofList, e]
    · rw [like_iff, String.toList_ofList]
      exact first
    · rw [like_iff, String.toList_ofList]
      exact second
  · rintro ⟨t₁, t₂, rfl, first, second⟩
    exact ⟨t₁.toList, first, t₂.toList, second, String.toList_append.symm⟩

/-- A quoted text matches itself alone. -/
theorem like_literally {t s : String} : like t (literally s) = true ↔ t = s := by
  rw [like_iff, literally, String.toList_ofList, matched_literally]
  exact String.toList_inj

theorem like_wildcard (t : String) : like t "%" = true := by
  show t.toList ∈ matched ['%']
  rw [matched_any, matched_nil, mul_one]
  trivial

theorem paired_literally (s : String) : Paired (literally s).toList := by
  rw [literally, String.toList_ofList]
  exact paired_literalPieces s.toList

theorem paired_wildcard : Paired "%".toList := .char (by decide) .nil

/-- With a wildcard behind it matches the texts that begin with it. -/
theorem like_beginning {t s : String} :
    like t (literally s ++ "%") = true ↔ ∃ after, t = s ++ after := by
  rw [like_append (paired_literally s)]
  constructor
  · rintro ⟨t₁, after, rfl, first, -⟩
    rw [like_literally.1 first]
    exact ⟨after, rfl⟩
  · rintro ⟨after, rfl⟩
    exact ⟨s, after, rfl, like_literally.2 rfl, like_wildcard after⟩

/-- A wildcard in front of a pattern lets anything stand before what the pattern
matches. -/
theorem like_ending {t p : String} :
    like t ("%" ++ p) = true ↔ ∃ before rest, t = before ++ rest ∧ like rest p = true := by
  rw [like_append paired_wildcard]
  constructor
  · rintro ⟨before, rest, e, -, h⟩
    exact ⟨before, rest, e, h⟩
  · rintro ⟨before, rest, e, h⟩
    exact ⟨before, rest, e, like_wildcard before, h⟩

theorem like_inside {t s : String} : like t ("%" ++ literally s ++ "%") = true ↔ Occurs s t := by
  rw [String.append_assoc, like_ending]
  constructor
  · rintro ⟨before, rest, rfl, h⟩
    obtain ⟨after, rfl⟩ := like_beginning.1 h
    exact ⟨before, after, (String.append_assoc ..).symm⟩
  · rintro ⟨before, after, rfl⟩
    exact ⟨before, s ++ after, String.append_assoc .., like_beginning.2 ⟨after, rfl⟩⟩

/-! ### Patterns and places -/

/-- The place of a text that occurs is after zero. -/
theorem locate_pos {s t : String} : 0 < locate s t ↔ Occurs s t := by
  have place := place_locate s t
  generalize e : Json.ofInt (locate s t) = answer at place
  cases place with
  | absent nowhere =>
    have zero : (locate s t : Int) = 0 := by simpa [Json.ofInt] using e
    exact iff_of_false (by omega) nowhere
  | @first _ before here _ =>
    have after : (locate s t : Int) = (1 + before.utf8ByteSize : Nat) := by
      simpa [Json.ofInt] using e
    exact iff_of_true (by omega) ⟨before, here⟩

/-- A search answers a place that compares with zero as a number does. -/
theorem comparison_locate (s t : String) :
    comparison .greaterThan (.ofInt (locate s t)) (.ofInt 0) = .bool (decide (0 < locate s t)) := by
  have truth : isTrue (comparison .greaterThan (.ofInt (locate s t)) (.ofInt 0)) = true ↔
      0 < locate s t := by
    rw [(place_locate s t).isTrue_iff, locate_pos]
    simp
  have isBool : comparison .greaterThan (.ofInt (locate s t)) (.ofInt 0) =
      .bool (isTrue (comparison .greaterThan (.ofInt (locate s t)) (.ofInt 0))) := rfl
  rw [isBool, ← Bool.eq_iff_iff.2 (truth.trans decide_eq_true_iff.symm)]

section Eval

variable {ps : Parameters} {binding : Binding} {haystack needle pattern : Expr} {t s p : String}

theorem eval_like (text : eval ps binding haystack = .ok (.string t))
    (given : eval ps binding pattern = .ok (.string p)) :
    eval ps binding (.binary .like haystack pattern) = .ok (.bool (like t p)) := by
  rw [eval_binary text given]
  rfl

/-- A substring search finds a text where it occurs. -/
theorem eval_located (text : eval ps binding haystack = .ok (.string t))
    (sought : eval ps binding needle = .ok (.string s)) :
    eval ps binding (.binary .greaterThan (.locate needle haystack) (.literal (.integer 0))) =
      .ok (.bool (decide (0 < locate s t))) := by
  have place : eval ps binding (.locate needle haystack) = .ok (.ofInt (locate s t)) := by
    rw [eval, text, sought]
    rfl
  rw [eval_binary place rfl, ← comparison_locate]
  rfl

end Eval

/-- **Patterns match piece by piece**, so a text with its backslashes set is a
pattern for itself, and with wildcards for what begins with it, ends in it or
contains it.  The last says the same as that the search for the text finds it. -/
theorem like_compositional (t : String) :
    (∀ p q : String, Paired p.toList →
      (like t (p ++ q) = true ↔
        ∃ t₁ t₂, t = t₁ ++ t₂ ∧ like t₁ p = true ∧ like t₂ q = true)) ∧
    ∀ s : String,
      (like t (literally s) = true ↔ t = s) ∧
      (like t (literally s ++ "%") = true ↔ ∃ after, t = s ++ after) ∧
      (like t ("%" ++ literally s) = true ↔ ∃ before, t = before ++ s) ∧
      (like t ("%" ++ literally s ++ "%") = true ↔ ∃ before after, t = before ++ s ++ after) ∧
      (like t ("%" ++ literally s ++ "%") = true ↔ 0 < locate s t) ∧
      ∀ (ps : Parameters) (binding : Binding) (haystack needle pattern : Expr),
        eval ps binding haystack = .ok (.string t) → eval ps binding needle = .ok (.string s) →
        eval ps binding pattern = .ok (.string ("%" ++ literally s ++ "%")) →
        eval ps binding (.binary .like haystack pattern) =
          eval ps binding
            (.binary .greaterThan (.locate needle haystack) (.literal (.integer 0))) := by
  refine ⟨fun p q paired => like_append paired, fun s => ?_⟩
  have search : like t ("%" ++ literally s ++ "%") = true ↔ 0 < locate s t :=
    like_inside.trans locate_pos.symm
  refine ⟨like_literally, like_beginning, ?_, like_inside, search, ?_⟩
  · -- What follows the wildcard is quoted, and matches its text alone.
    rw [like_ending]
    constructor
    · rintro ⟨before, rest, rfl, h⟩
      rw [like_literally.1 h]
      exact ⟨before, rfl⟩
    · rintro ⟨before, rfl⟩
      exact ⟨before, s, rfl, like_literally.2 rfl⟩
  · intro ps binding haystack needle pattern text sought given
    rw [eval_like text given, eval_located text sought]
    rw [Bool.eq_iff_iff.2 (search.trans decide_eq_true_iff.symm)]

/-- A discount with a percent sign is matched in two parts, and the sign is
found where the pattern for it says, also when expressions are evaluated. -/
theorem like_compositional_discount :
    (∃ t₁ t₂, "50% off" = t₁ ++ t₂ ∧ like t₁ "5_\\%" = true ∧ like t₂ "%f" = true) ∧
      literally "% o" = "\\% o" ∧ 0 < locate "% o" "50% off" ∧
      eval [] [] (.binary .like (.literal (.string "50% off")) (.literal (.string "%\\% o%"))) =
        eval [] [] (.binary .greaterThan
          (.locate (.literal (.string "% o")) (.literal (.string "50% off")))
          (.literal (.integer 0))) := by
  have patterns := like_compositional "50% off"
  have paired : Paired "5_\\%".toList :=
    .char (by decide) (.char (by decide) (.escape '%' .nil))
  obtain ⟨-, -, -, -, search, evaluated⟩ := patterns.2 "% o"
  exact ⟨(patterns.1 "5_\\%" "%f" paired).1 (by decide), by decide, search.1 (by decide),
    evaluated [] [] _ _ _ rfl rfl rfl⟩

end EntityQuery.Store
