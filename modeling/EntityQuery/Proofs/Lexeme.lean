/-
EntityQuery/Proofs/Lexeme.lean

The words of a document and how they may be written.

A lexeme is a word of a document by what it means: a string with its
characters, a number with its value.  It may be spelled in several ways
(`Lexeme.Spells`): any character of a string may be escaped, and a number may
begin with zeros.  Lexemes are written one after the other, each followed by
ignored text (`Written`).

A parser of words takes a word to its end when something ignored follows
(`Parser.Takes`), however it is spelled: nothing that may begin ignored text
can go on with a name, a number or a keyword.
-/
import EntityQuery.Document.Literal
import EntityQuery.Proofs.Quoting

namespace EntityQuery.Document

open Sql (Digits digitsNumber)

/-! ### Ignored text -/

/-- The characters that ignored text may begin with. -/
def breaks : List Char := [' ', '\t', '\r', '\n', ',', '#']

/-- Text without meaning: blanks, commas and whole comments. -/
inductive Ignored : List Char → Prop
  | nil : Ignored []
  | blank {c : Char} {rest : List Char} (h : c ∈ [' ', '\t', '\r', '\n', ','])
      (ignored : Ignored rest) : Ignored (c :: rest)
  | comment {line rest : List Char} (h : '\n' ∉ line) (ignored : Ignored rest) :
      Ignored ('#' :: (line ++ '\n' :: rest))

/-- What stands between two words. -/
structure Gap (text : List Char) : Prop where
  ignored : Ignored text
  ne_nil : text ≠ []

/-- What is so of a few characters is found by going through them. -/
theorem forall_mem_of_all {α : Type} {P : α → Prop} [DecidablePred P] {few : List α}
    (h : (few.all fun c => decide (P c)) = true) : ∀ c ∈ few, P c :=
  fun c hc => of_decide_eq_true (List.all_eq_true.1 h c hc)

/-- Nothing ignored stands at the beginning of the text. -/
def Solid (text : List Char) : Prop := ∀ c, text.head? = some c → c ∉ breaks

/-- Nothing is skipped where nothing is ignored. -/
theorem skipIgnored_of_solid {text : List Char} (h : Solid text) : skipIgnored text = text := by
  cases text with
  | nil => rfl
  | cons c rest =>
    have other := h c rfl
    simp only [breaks, List.mem_cons, List.not_mem_nil, or_false, not_or] at other
    obtain ⟨blank, tab, ret, feed, comma, hash⟩ := other
    simp [skipIgnored, skipIgnoredFrom, isSpace, *]

/-- The rest of a comment is skipped to the end of its line. -/
theorem skipIgnoredFrom_comment {line : List Char} (h : '\n' ∉ line) (rest : List Char) :
    skipIgnoredFrom true (line ++ '\n' :: rest) = skipIgnored rest := by
  induction line with
  | nil => rfl
  | cons c line ih =>
    obtain ⟨here, later⟩ := not_or.1 (mt List.mem_cons.2 h)
    rw [List.cons_append, skipIgnoredFrom, if_pos rfl, if_neg (Ne.symm here)]
    exact ih later

/-- Ignored text is skipped, with whatever ignored text follows. -/
theorem Ignored.skip {gap : List Char} (h : Ignored gap) (rest : List Char) :
    skipIgnored (gap ++ rest) = skipIgnored rest := by
  induction h with
  | nil => rfl
  | @blank c gap h ignored ih =>
    have space : ∀ c ∈ [' ', '\t', '\r', '\n', ','], (isSpace c || c = ',') = true :=
      forall_mem_of_all (by decide)
    rw [List.cons_append, skipIgnored, skipIgnoredFrom, if_neg Bool.false_ne_true,
      if_pos (space c h)]
    exact ih
  | @comment line gap h ignored ih =>
    have mark : (isSpace '#' || '#' = ',') = false := by decide
    rw [List.cons_append, List.append_assoc, List.cons_append, skipIgnored, skipIgnoredFrom,
      if_neg Bool.false_ne_true, mark, if_neg Bool.false_ne_true, if_pos rfl,
      skipIgnoredFrom_comment h]
    exact ih

/-- A gap begins with one of the characters that ignored text may begin with. -/
theorem Gap.break {gap : List Char} (h : Gap gap) : ∃ c rest, gap = c :: rest ∧ c ∈ breaks := by
  cases h.ignored with
  | nil => exact absurd rfl h.ne_nil
  | blank blank ignored => exact ⟨_, _, rfl, List.mem_append_left ['#'] blank⟩
  | comment line ignored => exact ⟨_, _, rfl, by decide⟩

/-! ### Spelling of words -/

/-- A name: a letter or underscore, then letters, digits and underscores. -/
def IsName (word : List Char) : Prop :=
  ∃ c rest, word = c :: rest ∧ isNameStart c = true ∧ ∀ d ∈ rest, isNamePart d = true

/-- The characters that one letter after a backslash stands for. -/
def shortEscapes : List (Char × Char) :=
  [('"', '"'), ('\\', '\\'), ('/', '/'), ('b', '\x08'), ('f', '\x0c'), ('n', '\n'), ('r', '\r'),
    ('t', '\t')]

/-- A digit of base sixteen, in lower or upper case. -/
def HexDigit (c : Char) (n : Nat) : Prop :=
  n < 16 ∧ (c = n.digitChar ∨ c = n.digitChar.toUpper)

instance (c : Char) (n : Nat) : Decidable (HexDigit c n) :=
  inferInstanceAs (Decidable (_ ∧ _))

/-- The four characters after `\u` for a character code: digits of base sixteen,
or a plus sign and three digits. -/
inductive CodeText : List Char → Nat → Prop
  | digits {a b c d : Char} {i j k l : Nat} (ha : HexDigit a i) (hb : HexDigit b j)
      (hc : HexDigit c k) (hd : HexDigit d l) :
      CodeText [a, b, c, d] (((i * 16 + j) * 16 + k) * 16 + l)
  | plus {b c d : Char} {j k l : Nat} (hb : HexDigit b j) (hc : HexDigit c k)
      (hd : HexDigit d l) : CodeText ['+', b, c, d] ((j * 16 + k) * 16 + l)

/-- The inside of a quoted string and the characters of the string.  Each
character stands for itself or is escaped; a quote, a backslash and a line end
cannot stand for themselves. -/
inductive Quoted : List Char → List Char → Prop
  | nil : Quoted [] []
  | raw {c : Char} {inside s : List Char} (h : c ∉ ['"', '\\', '\n'])
      (quoted : Quoted inside s) : Quoted (c :: inside) (c :: s)
  | short {e c : Char} {inside s : List Char} (h : (e, c) ∈ shortEscapes)
      (quoted : Quoted inside s) : Quoted ('\\' :: e :: inside) (c :: s)
  | code {c : Char} {digits inside s : List Char} (h : CodeText digits c.toNat)
      (quoted : Quoted inside s) : Quoted ('\\' :: 'u' :: (digits ++ inside)) (c :: s)

/-- A power of ten as it is written. -/
inductive PowerText : List Char → Int → Prop
  | plain {e : Char} {ds : List Char} (letter : e = 'e' ∨ e = 'E') (digits : Digits ds) :
      PowerText (e :: ds) (digitsNumber ds)
  | plus {e : Char} {ds : List Char} (letter : e = 'e' ∨ e = 'E') (digits : Digits ds) :
      PowerText (e :: '+' :: ds) (digitsNumber ds)
  | minus {e : Char} {ds : List Char} (letter : e = 'e' ∨ e = 'E') (digits : Digits ds) :
      PowerText (e :: '-' :: ds) (-digitsNumber ds)

/-- An unsigned number with a fraction or a power of ten: its text, its digits as
a number, and the power of ten that this is to be multiplied with. -/
inductive FloatText : List Char → Nat → Int → Prop
  | fraction {ds fs : List Char} (whole : Digits ds) (part : Digits fs) :
      FloatText (ds ++ '.' :: fs) (digitsNumber (ds ++ fs)) (-fs.length)
  | power {ds ps : List Char} {e : Int} (whole : Digits ds) (power : PowerText ps e) :
      FloatText (ds ++ ps) (digitsNumber ds) e
  | both {ds fs ps : List Char} {e : Int} (whole : Digits ds) (part : Digits fs)
      (power : PowerText ps e) :
      FloatText (ds ++ '.' :: (fs ++ ps)) (digitsNumber (ds ++ fs)) (e - fs.length)

/-- The minus sign of a negative number. -/
def sign (negative : Bool) : List Char := if negative then ['-'] else []

/-- The punctuation characters. -/
def punctuation : List Char := ['(', ')', '[', ']', '\x7b', '\x7d', ':', '=', '!']

/-- A word of a document. -/
inductive Lexeme where
  | punct (c : Char)
  | name (s : String)
  | dollar (s : String)
  | string (s : String)
  | int (i : Int)
  | float (x : Binary64)

/-- The ways in which a word can be written. -/
inductive Lexeme.Spells : Lexeme → List Char → Prop
  | punct {c : Char} (h : c ∈ punctuation) : Spells (.punct c) [c]
  | name {s : String} (h : IsName s.toList) : Spells (.name s) s.toList
  | dollar {s : String} (h : IsName s.toList) : Spells (.dollar s) ('$' :: s.toList)
  | string {s : String} {inside : List Char} (h : Quoted inside s.toList) :
      Spells (.string s) ('"' :: (inside ++ ['"']))
  | int (negative : Bool) {ds : List Char} (digits : Digits ds) :
      Spells (.int (if negative then -digitsNumber ds else digitsNumber ds)) (sign negative ++ ds)
  | float (negative : Bool) {text : List Char} {n : Nat} {e : Int} (h : FloatText text n e) :
      Spells (.float (.ofDecimal negative n e)) (sign negative ++ text)

/-- Words one after the other, each with a gap after it. -/
inductive Written : List Lexeme → List Char → Prop
  | nil : Written [] []
  | cons {l : Lexeme} {ls : List Lexeme} {word gap rest : List Char} (spells : l.Spells word)
      (between : Gap gap) (written : Written ls rest) : Written (l :: ls) (word ++ (gap ++ rest))

/-! ### Taking a word to its end -/

/-- The parser takes the word to its end if something ignored follows. -/
def Parser.Takes {α : Type} (p : Parser α) (word : List Char) (value : α) : Prop :=
  ∀ c rest, c ∈ breaks → p (word ++ c :: rest) = .ok value (c :: rest)

theorem Parser.Takes.map {α β : Type} {p : Parser α} {word : List Char} {value : α} (f : α → β)
    (h : p.Takes word value) : (p.map f).Takes word (f value) := by
  intro c rest hc
  rw [Parser.map, h c rest hc]
  rfl

/-- A name is taken to its end. -/
theorem takes_name {word : List Char} (h : IsName word) :
    Parser.Takes name word (String.ofList word) := by
  intro c rest hc
  obtain ⟨d, more, rfl, start, parts⟩ := h
  have stop : isNamePart c = false := by
    revert c
    exact forall_mem_of_all (by decide)
  rw [List.cons_append, name, if_pos start, List.takeWhile_append_of_pos parts,
    List.dropWhile_append_of_pos parts, List.takeWhile_cons, List.dropWhile_cons, stop]
  simp

theorem takes_variableName {word : List Char} (h : IsName word) :
    Parser.Takes variableName ('$' :: word) (String.ofList word) := by
  intro c rest hc
  have named := takes_name h c rest hc
  simp only [variableName, Parser.andThen, char, List.cons_append, if_pos, Reply.bind,
    Parser.commit, named]

/-! ### Strings -/

theorem hexDigit_value {c : Char} {n : Nat} (h : HexDigit c n) : digitValue? 16 c = some n := by
  obtain ⟨small, rfl | rfl⟩ := h
  · revert n
    decide
  · revert n
    decide

theorem hexDigit_ne_sign {c : Char} {n : Nat} (h : HexDigit c n) : c ≠ '+' ∧ c ≠ '-' := by
  obtain ⟨small, rfl | rfl⟩ := h
  · revert n
    decide
  · revert n
    decide

/-- One more digit is read into a code that has at most three. -/
theorem readUp_hexDigit (value : Nat) {n : Nat} {c : Char} (h : HexDigit c n) (rest : List Char)
    (small : value < 4096) :
    IntegerRange.readUp ⟨0, 0xFFFF⟩ 16 value (c :: rest) =
      IntegerRange.readUp ⟨0, 0xFFFF⟩ 16 (value * 16 + n : Nat) rest := by
  have digit := h.1
  rw [IntegerRange.readUp, hexDigit_value h]
  refine (if_neg (not_lt.2 ?_)).trans ?_
  · show (value : Int) * 16 + n ≤ 0xFFFF
    omega
  · rw [Int.natCast_add, Int.natCast_mul]

/-- Three digits of base sixteen after a smaller one, or after none. -/
theorem readUp_three {b c d : Char} {i j k l : Nat} (small : i < 16) (hb : HexDigit b j)
    (hc : HexDigit c k) (hd : HexDigit d l) :
    IntegerRange.readUp ⟨0, 0xFFFF⟩ 16 i [b, c, d] =
      .ok (((i * 16 + j) * 16 + k) * 16 + l : Nat) := by
  have hj := hb.1
  have hk := hc.1
  rw [readUp_hexDigit _ hb _ (by omega), readUp_hexDigit _ hc _ (by omega),
    readUp_hexDigit _ hd _ (by omega)]
  rfl

/-- The four characters that may be written for a code are read as that code. -/
theorem hexFour?_codeText {digits : List Char} {n : Nat} (h : CodeText digits n) :
    ∃ a b c d, digits = [a, b, c, d] ∧ hexFour? a b c d = some n := by
  cases h with
  | @digits a b c d i j k l ha hb hc hd =>
    refine ⟨a, b, c, d, rfl, ?_⟩
    obtain ⟨plus, minus⟩ := hexDigit_ne_sign ha
    have first := readUp_hexDigit 0 ha [b, c, d] (by decide)
    rw [Nat.zero_mul, Nat.zero_add, readUp_three ha.1 hb hc hd, Nat.cast_zero] at first
    rw [hexFour?, IntegerRange.readBase]
    -- A hexadecimal digit is no sign, so that the whole text is taken for digits.
    · rw [first]
      rfl
    all_goals simp [plus, minus]
  | @plus b c d j k l hb hc hd =>
    refine ⟨'+', b, c, d, rfl, ?_⟩
    have rest := readUp_three (i := 0) (by decide) hb hc hd
    rw [Nat.zero_mul, Nat.zero_add, Nat.cast_zero] at rest
    rw [hexFour?, IntegerRange.readBase]
    · rw [rest]
      rfl
    · simp

/-- The code of a character stands for it. -/
theorem charOfCode?_toNat (c : Char) : charOfCode? c.toNat = some c := by
  have valid : c.toNat.isValidChar := c.valid
  have same := Char.ofNat_toNat c
  rw [Char.ofNat, dif_pos valid] at same
  rw [charOfCode?, dif_pos valid, same]

theorem shortEscape?_of_mem {e c : Char} (h : (e, c) ∈ shortEscapes) :
    shortEscape? e = some c ∧ e ≠ 'u' := by
  simp only [shortEscapes, List.mem_cons, Prod.mk.injEq, List.not_mem_nil, or_false] at h
  rcases h with h | h | h | h | h | h | h | h
  all_goals
    obtain ⟨rfl, rfl⟩ := h
    decide

/-- A quoted string is read to its closing quote, whatever follows. -/
theorem stringFrom_quoted {inside s : List Char} (h : Quoted inside s)
    (opening read rest : List Char) :
    stringFrom opening read (inside ++ '"' :: rest) =
      .ok (String.ofList (read.reverse ++ s)) rest := by
  -- Along the quoted text: what was read so far is kept in reverse.
  induction h generalizing read with
  | nil => simp [stringFrom]
  | @raw c inside s h quoted ih =>
    simp only [List.mem_cons, List.not_mem_nil, or_false, not_or] at h
    obtain ⟨quote, backslash, feed⟩ := h
    rw [List.cons_append, stringFrom, if_neg quote, if_neg feed, if_neg backslash, ih]
    · simp
    all_goals simp [backslash]
  | @short e c inside s h quoted ih =>
    obtain ⟨decoded, other⟩ := shortEscape?_of_mem h
    rw [List.cons_append, List.cons_append, stringFrom, decoded]
    · simp only [ih]
      simp
    · simp [other]
  | @code c digits inside s h quoted ih =>
    obtain ⟨a, b, d, e, rfl, four⟩ := hexFour?_codeText h
    simp only [List.cons_append, List.nil_append, stringFrom, four, Option.bind_some,
      charOfCode?_toNat, ih]
    simp

theorem takes_string {inside s : List Char} (h : Quoted inside s) :
    Parser.Takes string ('"' :: (inside ++ ['"'])) (String.ofList s) := by
  intro c rest hc
  have read := stringFrom_quoted h ('"' :: (inside ++ '"' :: c :: rest)) [] (c :: rest)
  simpa [string] using read

/-! ### Numbers -/

/-- The value of a decimal digit. -/
def digitOf (c : Char) : Nat := c.toNat - '0'.toNat

theorem isDigit_iff {c : Char} : c.isDigit = true ↔ '0' ≤ c ∧ c ≤ '9' := by
  simp [Char.isDigit, Char.le_def]

theorem digitValue?_isDigit {c : Char} (h : c.isDigit = true) :
    digitValue? 10 c = some (digitOf c) := by
  have bounds := isDigit_iff.1 h
  have small : c.toNat - '0'.toNat < 10 := by
    have upper : c.toNat ≤ '9'.toNat := bounds.2
    have nine : '9'.toNat = 57 := rfl
    have zero : '0'.toNat = 48 := rfl
    omega
  rw [digitValue?, if_pos bounds]
  exact (Option.filter_eq_some_iff).2 ⟨rfl, decide_eq_true small⟩

theorem digitValue?_not_isDigit {c : Char} (h : c.isDigit = false) : digitValue? 10 c = none := by
  have bounds : ¬('0' ≤ c ∧ c ≤ '9') := fun b => Bool.false_ne_true (h.symm.trans (isDigit_iff.2 b))
  simp only [digitValue?, if_neg bounds]
  split
  · simp
  split
  · simp
  · rfl

/-- No digit stands at the beginning of the text. -/
def Digitless (text : List Char) : Prop := ∀ c, text.head? = some c → c.isDigit = false

/-- Digits are spanned up to what is none. -/
theorem spanDigits_append {ds : List Char} (h : ∀ c ∈ ds, c.isDigit = true) {rest : List Char}
    (stop : Digitless rest) : spanDigits (ds ++ rest) = (ds.map digitOf, rest) := by
  induction ds with
  | nil =>
    cases rest with
    | nil => rfl
    | cons c rest =>
      rw [List.nil_append, spanDigits, digitValue?_not_isDigit (stop c rfl)]
      rfl
  | cons c ds ih =>
    obtain ⟨here, later⟩ := List.forall_mem_cons.1 h
    rw [List.cons_append, spanDigits, digitValue?_isDigit here, ih later]
    rfl

theorem digits1_append {ds : List Char} (h : Digits ds) {rest : List Char}
    (stop : Digitless rest) : digits1 (ds ++ rest) = some (ds.map digitOf, rest) := by
  obtain ⟨c, more, e⟩ := List.exists_cons_of_ne_nil h.1
  rw [digits1, spanDigits_append h.2 stop, e]
  rfl

theorem digitsValue_map (ds : List Char) : digitsValue (ds.map digitOf) = digitsNumber ds := by
  simp only [digitsValue, digitsNumber, Nat.ofDigitChars]
  rw [List.foldl_map]
  rfl

/-- What follows a gap's first character is neither a digit, a point nor a power. -/
theorem breaks_end_number {c : Char} (hc : c ∈ breaks) (rest : List Char) :
    Digitless (c :: rest) ∧ fraction (c :: rest) = (none, c :: rest) ∧
      power (c :: rest) = (none, c :: rest) := by
  have marks : ∀ c ∈ breaks, c.isDigit = false ∧ c ≠ '.' ∧ ¬(c = 'e' ∨ c = 'E') :=
    forall_mem_of_all (by decide)
  obtain ⟨digit, point, letter⟩ := marks c hc
  refine ⟨?_, ?_, ?_⟩
  · rintro d ⟨⟩
    exact digit
  · rw [fraction]
    simp [point]
  · simp only [power, if_neg letter]

/-- A fraction is read behind its point. -/
theorem fraction_append {fs : List Char} (h : Digits fs) {rest : List Char}
    (stop : Digitless rest) : fraction ('.' :: (fs ++ rest)) = (some (fs.map digitOf), rest) := by
  rw [fraction, digits1_append h stop]

/-- A power begins with neither a digit nor a point. -/
theorem digitless_powerText {ps : List Char} {e : Int} (h : PowerText ps e) (rest : List Char) :
    Digitless (ps ++ rest) ∧ fraction (ps ++ rest) = (none, ps ++ rest) := by
  have begins : ∃ c more, ps = c :: more ∧ (c = 'e' ∨ c = 'E') := by
    cases h with
    | plain letter digits => exact ⟨_, _, rfl, letter⟩
    | plus letter digits => exact ⟨_, _, rfl, letter⟩
    | minus letter digits => exact ⟨_, _, rfl, letter⟩
  obtain ⟨c, more, rfl, rfl | rfl⟩ := begins
  · exact ⟨by rintro d ⟨⟩; rfl, rfl⟩
  · exact ⟨by rintro d ⟨⟩; rfl, rfl⟩

theorem digits_head {d : Char} {ds : List Char} (h : Digits (d :: ds)) : d ≠ '-' ∧ d ≠ '+' := by
  have digit := h.2 d List.mem_cons_self
  constructor <;> rintro rfl <;> cases digit

/-- A power is read with its sign. -/
theorem power_append {ps : List Char} {e : Int} (h : PowerText ps e) {rest : List Char}
    (stop : Digitless rest) : power (ps ++ rest) = (some e, rest) := by
  cases h with
  | @plain e ds letter digits =>
    obtain ⟨d, more, rfl⟩ := List.exists_cons_of_ne_nil digits.1
    obtain ⟨minus, plus⟩ := digits_head digits
    have read := digits1_append digits stop
    simp only [List.cons_append] at read
    simp [power, letter, minus, plus, read, digitsValue_map, - List.map_cons]
  | @plus e ds letter digits =>
    simp only [List.cons_append, power, if_pos letter, digits1_append digits stop,
      digitsValue_map, if_neg Bool.false_ne_true]
  | @minus e ds letter digits =>
    simp only [List.cons_append, power, if_pos letter, digits1_append digits stop,
      digitsValue_map, if_true]

/-- A number is read part by part: sign, digits, fraction, power of ten. -/
theorem number_parts (negative : Bool) {ds : List Char} (h : Digits ds)
    {afterWhole afterPart rest : List Char} {part : Option (List Nat)} {exponent : Option Int}
    (stop : Digitless afterWhole) (hp : fraction afterWhole = (part, afterPart))
    (he : power afterPart = (exponent, rest)) :
    number (sign negative ++ (ds ++ afterWhole)) =
      if part.isNone && exponent.isNone then
        let i : Int := if negative then -digitsNumber ds else digitsNumber ds
        if IntegerRange.int64.has i then .ok (.int i) rest
        else .hard [⟨sign negative ++ (ds ++ afterWhole), "Integer literal out of range"⟩]
      else
        .ok (.float (.ofDecimal negative (digitsValue (ds.map digitOf ++ part.getD []))
          (exponent.getD 0 - (part.getD []).length))) rest := by
  have read := digits1_append h stop
  -- Without a sign the first character is a digit, which is no minus.
  cases negative with
  | true =>
    simp only [sign, if_true, List.cons_append, List.nil_append, number, read, hp, he,
      digitsValue_map]
  | false =>
    obtain ⟨d, more, rfl⟩ := List.exists_cons_of_ne_nil h.1
    obtain ⟨minus, -⟩ := digits_head h
    simp only [List.cons_append] at read
    simp [sign, number, minus, read, hp, he, digitsValue_map, - List.map_cons]

theorem takes_int (negative : Bool) {ds : List Char} (h : Digits ds)
    (range : IntegerRange.int64.has (if negative then -digitsNumber ds else digitsNumber ds)) :
    Parser.Takes number (sign negative ++ ds)
      (.int (if negative then -digitsNumber ds else digitsNumber ds)) := by
  intro c rest hc
  obtain ⟨stop, hp, he⟩ := breaks_end_number hc rest
  rw [List.append_assoc, number_parts negative h stop hp he]
  exact if_pos range

/-- A number with a fraction or a power is taken as a float. -/
theorem takes_float (negative : Bool) {text : List Char} {n : Nat} {e : Int}
    (h : FloatText text n e) :
    Parser.Takes number (sign negative ++ text) (.float (.ofDecimal negative n e)) := by
  intro c rest hc
  obtain ⟨stop, none_part, none_power⟩ := breaks_end_number hc rest
  have point : ∀ more, Digitless ('.' :: more) := by
    rintro more d ⟨⟩
    rfl
  rw [List.append_assoc]
  -- A fraction, a power, or both.
  cases h with
  | @fraction ds fs whole part =>
    have read := fraction_append part stop
    rw [List.append_assoc, List.cons_append, number_parts negative whole (point _) read none_power]
    simp [← digitsValue_map]
  | @power ds ps e whole power =>
    obtain ⟨other, none_part⟩ := digitless_powerText power (c :: rest)
    rw [List.append_assoc, number_parts negative whole other none_part (power_append power stop)]
    simp [← digitsValue_map]
  | @both ds fs ps e whole part power =>
    obtain ⟨other, -⟩ := digitless_powerText power (c :: rest)
    have read := fraction_append part other
    rw [List.append_assoc, List.cons_append, List.append_assoc,
      number_parts negative whole (point _) read (power_append power stop)]
    simp [← digitsValue_map]

end EntityQuery.Document
