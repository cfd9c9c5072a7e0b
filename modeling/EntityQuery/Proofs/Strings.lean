/-
EntityQuery/Proofs/Strings.lean

Which texts are strings.

The inside of a string is documented as characters that stand for themselves
and escapes, of one letter or of four digits of base sixteen (`Documented`).
What is read is a little more (`Quoted`): in the place of the first digit a
plus sign is taken as well.  With this one addition, a string is read exactly
if the text begins with a quote, an inside and a quote, whatever follows
(`Accepts`), and it is read as documented exactly if no such escape is in it
(`string_accepts`).

Reading goes on from the end of whatever has been read
(`stringFrom_append`), and every string that is read had an inside
(`stringFrom_eq_ok`).
-/
import EntityQuery.Proofs.Lexeme

namespace EntityQuery.Document

/-! ### Digits of base sixteen -/

theorem hexDigit_of_value {c : Char} {n : Nat} (h : digitValue? 16 c = some n) : HexDigit c n := by
  have ascii : c.toNat < 128 := by
    simp only [digitValue?, Option.filter_eq_some_iff] at h
    obtain ⟨known, -⟩ := h
    have bound : ∀ {d : Char}, d.toNat < 128 → c ≤ d → c.toNat < 128 :=
      fun small le => Nat.lt_of_le_of_lt le small
    split at known
    · next range => exact bound (by decide) range.2
    split at known
    · next range => exact bound (by decide) range.2
    split at known
    · next range => exact bound (by decide) range.2
    · cases known
  -- A hexadecimal digit is ASCII, so that there are few characters to look at.
  have table : ∀ k < 128, ∀ n ∈ digitValue? 16 (Char.ofNat k), HexDigit (Char.ofNat k) n := by
    decide
  have found := table c.toNat ascii n
  rw [Char.ofNat_toNat] at found
  exact found h

/-- A digit is read before the others. -/
theorem readUp_eq_ok {range : IntegerRange} {base : Nat} {value n : Int} {c : Char}
    {rest : List Char} (h : range.readUp base value (c :: rest) = .ok n) :
    ∃ d, digitValue? base c = some d ∧ range.readUp base (value * base + d) rest = .ok n := by
  rw [IntegerRange.readUp] at h
  cases digit : digitValue? base c with
  | none =>
    rw [digit] at h
    cases h
  | some d =>
    simp only [digit] at h
    split at h
    · cases h
    · exact ⟨d, rfl, h⟩

/-- Three digits after a smaller one, or after none. -/
theorem readUp_three_eq_ok {range : IntegerRange} {b c d : Char} {i : Nat} {n : Int}
    (h : range.readUp 16 i [b, c, d] = .ok n) :
    ∃ j k l, HexDigit b j ∧ HexDigit c k ∧ HexDigit d l ∧
      n = (((i * 16 + j) * 16 + k) * 16 + l : Nat) := by
  obtain ⟨j, hb, h⟩ := readUp_eq_ok h
  obtain ⟨k, hc, h⟩ := readUp_eq_ok h
  obtain ⟨l, hd, h⟩ := readUp_eq_ok h
  cases h
  exact ⟨j, k, l, hexDigit_of_value hb, hexDigit_of_value hc, hexDigit_of_value hd, rfl⟩

/-- Four characters that are read as a code are digits, or a plus sign and
three digits. -/
theorem codeText_of_hexFour? {a b c d : Char} {n : Nat} (h : hexFour? a b c d = some n) :
    CodeText [a, b, c, d] n := by
  rw [hexFour?] at h
  split at h
  · next i read =>
    cases h
    rw [IntegerRange.readBase.eq_def] at read
    -- A plus in front leaves three digits; a minus is refused, since there is nothing below zero.
    split at read
    · next text => cases text
    · next text => cases text
    · next text => cases text
    · next digits plus text =>
      cases text
      obtain ⟨j, k, l, hb, hc, hd, rfl⟩ := readUp_three_eq_ok (i := 0) read
      rw [Int.toNat_natCast, Nat.zero_mul, Nat.zero_add]
      exact .plus hb hc hd
    · next digits minus text =>
      cases text
      cases read
    · obtain ⟨i, ha, read⟩ := readUp_eq_ok read
      rw [Int.zero_mul, Int.zero_add] at read
      obtain ⟨j, k, l, hb, hc, hd, rfl⟩ := readUp_three_eq_ok read
      exact .digits (hexDigit_of_value ha) hb hc hd
  · cases h

theorem eq_of_charOfCode? {n : Nat} {c : Char} (h : charOfCode? n = some c) : n = c.toNat := by
  by_cases valid : n.isValidChar
  · rw [charOfCode?, dif_pos valid] at h
    cases h
    rfl
  · rw [charOfCode?, dif_neg valid] at h
    cases h

theorem mem_of_shortEscape? {e c : Char} (h : shortEscape? e = some c) : (e, c) ∈ shortEscapes := by
  rw [shortEscape?.eq_def] at h
  split at h <;> cases h <;> decide

/-! ### Reading to the closing quote -/

/-- Reading goes on after an inside, with its characters. -/
theorem stringFrom_append {inside s : List Char} (h : Quoted inside s)
    (opening read rest : List Char) :
    stringFrom opening read (inside ++ rest) = stringFrom opening (s.reverse ++ read) rest := by
  -- Along the quoted text, piece by piece; what was read so far is kept in reverse.
  induction h generalizing read with
  | nil => rfl
  | @raw c inside s h quoted ih =>
    simp only [List.mem_cons, List.not_mem_nil, or_false, not_or] at h
    obtain ⟨quote, backslash, feed⟩ := h
    rw [List.cons_append, stringFrom, if_neg quote, if_neg feed, if_neg backslash, ih]
    · simp
    all_goals simp [backslash]
  | @short e c inside s h quoted ih =>
    obtain ⟨decoded, other⟩ := shortEscape?_of_mem h
    rw [List.cons_append, List.cons_append, stringFrom, decoded]
    · simp only [ih]
      simp
    · simp [other]
  | @code c digits inside s h quoted ih =>
    obtain ⟨a, b, d, e, rfl, four⟩ := hexFour?_codeText h
    simp only [List.cons_append, List.nil_append, stringFrom, four, Option.bind_some,
      charOfCode?_toNat, ih]
    simp

/-- What is read to a closing quote had an inside before that quote. -/
theorem stringFrom_eq_ok {opening read text rest : List Char} {s : String}
    (h : stringFrom opening read text = .ok s rest) :
    ∃ inside t, text = inside ++ '"' :: rest ∧ Quoted inside t ∧
      s = String.ofList (read.reverse ++ t) := by
  fun_induction stringFrom opening read text with
  | case2 read a b c d after decoded code ih =>
    obtain ⟨inside, t, rfl, quoted, rfl⟩ := ih h
    obtain ⟨n, four, named⟩ := Option.bind_eq_some_iff.1 code
    obtain rfl := eq_of_charOfCode? named
    exact ⟨_, _, rfl, .code (codeText_of_hexFour? four) quoted, by simp⟩
  | case5 read e after other decoded short ih =>
    obtain ⟨inside, t, rfl, quoted, rfl⟩ := ih h
    exact ⟨_, _, rfl, .short (mem_of_shortEscape? short) quoted, by simp⟩
  | case7 read after =>
    cases h
    exact ⟨[], [], rfl, .nil, by simp⟩
  | case10 read c after no_code no_escape quote feed backslash ih =>
    obtain ⟨inside, t, rfl, quoted, rfl⟩ := ih h
    exact ⟨_, _, rfl, .raw (by simp [quote, backslash, feed]) quoted, by simp⟩
  | case1 | case3 | case4 | case6 | case8 | case9 => cases h

/-- A string that was begun is read, or is wrong for good. -/
theorem stringFrom_ne_soft (opening read text : List Char) (trail : Trail) :
    stringFrom opening read text ≠ .soft trail := by
  fun_induction stringFrom opening read text with
  | case2 read a b c d after decoded code ih => exact ih
  | case5 read e after other decoded short ih => exact ih
  | case10 read c after no_code no_escape quote feed backslash ih => exact ih
  | case1 | case3 | case4 | case6 | case7 | case8 | case9 => exact nofun

/-! ### The documented form -/

/-- The inside of a quoted string as it is documented, and the characters of the
string: `Quoted` with four digits of base sixteen in every long escape. -/
inductive Documented : List Char → List Char → Prop
  | nil : Documented [] []
  | raw {c : Char} {inside s : List Char} (h : c ∉ ['"', '\\', '\n'])
      (documented : Documented inside s) : Documented (c :: inside) (c :: s)
  | short {e c : Char} {inside s : List Char} (h : (e, c) ∈ shortEscapes)
      (documented : Documented inside s) : Documented ('\\' :: e :: inside) (c :: s)
  | code {a b c d decoded : Char} {i j k l : Nat} {inside s : List Char} (ha : HexDigit a i)
      (hb : HexDigit b j) (hc : HexDigit c k) (hd : HexDigit d l)
      (named : decoded.toNat = ((i * 16 + j) * 16 + k) * 16 + l)
      (documented : Documented inside s) :
      Documented ('\\' :: 'u' :: a :: b :: c :: d :: inside) (decoded :: s)

/-- After some characters of the string, the inside has a long escape with a plus
sign. -/
def SignedEscape (inside : List Char) : Prop :=
  ∃ front s rest, Quoted front s ∧ inside = front ++ '\\' :: 'u' :: '+' :: rest

theorem Documented.quoted {inside s : List Char} (h : Documented inside s) : Quoted inside s := by
  induction h with
  | nil => exact .nil
  | raw h documented ih => exact .raw h ih
  | short h documented ih => exact .short h ih
  | @code a b c d decoded i j k l inside s ha hb hc hd named documented ih =>
    have code := CodeText.digits ha hb hc hd
    rw [← named] at code
    exact .code code ih

/-- The letter of a code is no short escape. -/
theorem not_shortEscape_u {c : Char} : ('u', c) ∉ shortEscapes :=
  fun h => (shortEscape?_of_mem h).2 rfl

theorem Quoted.append {front s inside t : List Char} (hf : Quoted front s) (h : Quoted inside t) :
    Quoted (front ++ inside) (s ++ t) := by
  induction hf with
  | nil => exact h
  | raw plain quoted ih => exact .raw plain ih
  | short short quoted ih => exact .short short ih
  | @code c digits front s code quoted ih =>
    rw [List.cons_append, List.cons_append, List.append_assoc]
    exact .code code ih

/-- What comes after some characters of a documented inside is one, too. -/
theorem Documented.rest {front t rest s : List Char} (hf : Quoted front t)
    (h : Documented (front ++ rest) s) : ∃ s', Documented rest s' := by
  induction hf generalizing s with
  | nil => exact ⟨s, h⟩
  | @raw c front t plain quoted ih =>
    rw [List.cons_append] at h
    -- The first piece is the same for both readings, since each shape begins in its own way.
    generalize front ++ rest = text at h ih
    cases h with
    | raw plain documented => exact ih documented
    | short | code => exact absurd (by simp) plain
  | @short e c front t short quoted ih =>
    rw [List.cons_append, List.cons_append] at h
    generalize front ++ rest = text at h ih
    cases h with
    | raw plain documented => exact absurd (by simp) plain
    | short short documented => exact ih documented
    | code ha hb hc hd named documented => exact absurd short not_shortEscape_u
  | @code c digits front t code quoted ih =>
    obtain ⟨a, b, d, e, rfl, -⟩ := hexFour?_codeText code
    simp only [List.cons_append, List.nil_append] at h
    generalize front ++ rest = text at h ih
    cases h with
    | raw plain documented => exact absurd (by simp) plain
    | short short documented => exact absurd short not_shortEscape_u
    | code ha hb hc hd named documented => exact ih documented

theorem SignedEscape.append {front s inside : List Char} (hf : Quoted front s)
    (h : SignedEscape inside) : SignedEscape (front ++ inside) := by
  obtain ⟨more, t, rest, quoted, rfl⟩ := h
  exact ⟨front ++ more, s ++ t, rest, hf.append quoted, (List.append_assoc _ _ _).symm⟩

/-- The documented insides are those that are read and have no plus sign in an
escape. -/
theorem documented_iff {inside s : List Char} :
    Documented inside s ↔ Quoted inside s ∧ ¬SignedEscape inside := by
  constructor
  · refine fun h => ⟨h.quoted, ?_⟩
    rintro ⟨front, t, rest, quoted, rfl⟩
    obtain ⟨s', documented⟩ := h.rest quoted
    cases documented with
    | raw plain documented => exact absurd (by simp) plain
    | short short documented => exact absurd short not_shortEscape_u
    | code ha hb hc hd named documented => exact (hexDigit_ne_sign ha).1 rfl
  · rintro ⟨quoted, unsigned⟩
    induction quoted with
    | nil => exact .nil
    | raw plain quoted ih =>
      exact .raw plain (ih fun signed => unsigned (signed.append (.raw plain .nil)))
    | short short quoted ih =>
      exact .short short (ih fun signed => unsigned (signed.append (.short short .nil)))
    | @code c digits inside s code quoted ih =>
      -- What follows is documented, since a signed escape in it would be one in the whole.
      have later : Documented inside s := by
        refine ih fun signed => unsigned ?_
        have more := signed.append (.code code .nil)
        rwa [List.append_nil] at more
      generalize named : c.toNat = n at code
      cases code with
      | digits ha hb hc hd => exact .code ha hb hc hd named later
      | plus hb hc hd => exact absurd ⟨[], [], _, .nil, rfl⟩ unsigned

/-! ### Which texts are read -/

/-- Of a text, a string is read exactly if an inside of the given form stands
between quotes at its beginning; where the text does not begin with a quote
another alternative may follow, and all else is wrong for good. -/
structure Accepts (form : List Char → List Char → Prop) (text : List Char) : Prop where
  ok : ∀ s rest, string text = .ok s rest ↔
    ∃ inside, text = '"' :: (inside ++ '"' :: rest) ∧ form inside s.toList
  soft : (∃ trail, string text = .soft trail) ↔ text.head? ≠ some '"'
  hard : (∃ trail, string text = .hard trail) ↔
    text.head? = some '"' ∧
      ∀ inside s rest, text = '"' :: (inside ++ '"' :: rest) → ¬form inside s

/-- A string is read if an inside stands between quotes, and only then. -/
theorem string_eq_ok {text rest : List Char} {s : String} :
    string text = .ok s rest ↔
      ∃ inside, text = '"' :: (inside ++ '"' :: rest) ∧ Quoted inside s.toList := by
  constructor
  · intro h
    rw [string.eq_def] at h
    split at h
    · obtain ⟨inside, t, rfl, quoted, rfl⟩ := stringFrom_eq_ok h
      exact ⟨inside, rfl, by simpa using quoted⟩
    · cases h
  · rintro ⟨inside, rfl, quoted⟩
    rw [string, stringFrom_append quoted]
    simp [stringFrom]

/-- Text that begins with no quote is left to other parsers. -/
theorem string_soft_iff {text : List Char} :
    (∃ trail, string text = .soft trail) ↔ text.head? ≠ some '"' := by
  rw [string.eq_def]
  split
  · simp [stringFrom_ne_soft]
  · next other =>
    refine iff_of_true ⟨_, rfl⟩ fun quote => ?_
    obtain ⟨body, e⟩ := List.head?_eq_some_iff.1 quote
    exact other body e

/-- What is read decides what is wrong: all that begins with a quote and is not
read. -/
theorem Accepts.of_ok {form : List Char → List Char → Prop} {text : List Char}
    (h : ∀ s rest, string text = .ok s rest ↔
      ∃ inside, text = '"' :: (inside ++ '"' :: rest) ∧ form inside s.toList) :
    Accepts form text where
  ok := h
  soft := string_soft_iff
  hard := by
    constructor
    · rintro ⟨trail, wrong⟩
      constructor
      · -- Text with no quote in front is left to other parsers, which is no failure of this one.
        by_contra other
        obtain ⟨trail', soft⟩ := string_soft_iff.2 other
        cases wrong.symm.trans soft
      · intro inside s rest e fits
        have read := (h (String.ofList s) rest).2 ⟨inside, e, by rwa [String.toList_ofList]⟩
        cases wrong.symm.trans read
    · rintro ⟨quote, none_fits⟩
      cases outcome : string text with
      | ok s rest =>
        obtain ⟨inside, e, fits⟩ := (h s rest).1 outcome
        exact absurd fits (none_fits inside s.toList rest e)
      | soft trail => exact absurd quote (string_soft_iff.1 ⟨trail, outcome⟩)
      | hard trail => exact ⟨trail, rfl⟩

/-- **A string is read exactly if it is spelled as one**, and as documented
exactly if no escape with a plus sign is in it. -/
theorem string_accepts (text : List Char) :
    Accepts Quoted text ∧
      (Accepts Documented text ↔
        ¬∃ inside s rest, text = '"' :: (inside ++ '"' :: rest) ∧ Quoted inside s ∧
          SignedEscape inside) := by
  refine ⟨.of_ok fun s rest => string_eq_ok, ?_, ?_⟩
  · rintro accepts ⟨inside, s, rest, e, quoted, signed⟩
    have read : string text = .ok (String.ofList s) rest :=
      string_eq_ok.2 ⟨inside, e, by rwa [String.toList_ofList]⟩
    obtain ⟨inside', e', documented⟩ := (accepts.ok _ _).1 read
    -- What is left is the same, and so is what was read before it.
    have same : inside' = inside := List.append_cancel_right (List.cons.inj (e'.symm.trans e)).2
    subst same
    exact (documented_iff.1 documented).2 signed
  · intro unsigned
    refine .of_ok fun s rest => string_eq_ok.trans (exists_congr fun inside => ?_)
    refine and_congr_right fun e => ?_
    refine ⟨fun quoted => documented_iff.2 ⟨quoted, fun signed => ?_⟩, Documented.quoted⟩
    exact unsigned ⟨inside, s.toList, rest, e, quoted, signed⟩

namespace Sample

/-- A plus sign and three digits are read as a character. -/
theorem not_documented :
    ¬(∀ text, Accepts Documented text) ∧ string "\"\\u+12a\"".toList = .ok "\u012a" [] := by
  have read : string "\"\\u+12a\"".toList = .ok "\u012a" [] := rfl
  refine ⟨fun accepts => ?_, read⟩
  obtain ⟨inside, e, documented⟩ := ((accepts _).ok _ _).1 read
  have same : ['\\', 'u', '+', '1', '2', 'a'] = inside :=
    List.append_cancel_right (List.cons.inj e).2
  subst same
  cases documented with
  | short short documented => exact absurd short not_shortEscape_u
  | code ha hb hc hd named documented => exact (hexDigit_ne_sign ha).1 rfl

end Sample

end EntityQuery.Document
