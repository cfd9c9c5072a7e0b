/-
EntityQuery/Proofs/Numerals.lean

How much of a text is read as a number.

Numbers are a regular language, `-?whole(\.[0-9]+)?([eE][+-]?[0-9]+)?`
(`numerals`).  Whole parts are documented to have no zeros in front
(`plainWhole`); what is read admits them (`digitRuns`).  A number is the longest
beginning of the text that is in the language, with its value, and nothing is
read if there is none (`TakesLongest`).  With the documented whole parts this is
so exactly if no digit follows a zero in front (`number_takes_longest`).

The longest beginning is found part by part.  A part that ends before it must
is followed by a character that no later part begins with, so nothing can be
won by taking less (`Longest.mul`).
-/
import EntityQuery.Proofs.Lexeme
import Mathlib.Computability.Language

namespace EntityQuery.Document

open Sql (Digits digitsNumber)

/-! ### The language of numbers -/

/-- Digits, at least one. -/
def digitRuns : Language Char := {ds | Digits ds}

/-- The digits of a whole number: zero, or digits that do not begin with zero. -/
def plainWhole : Language Char := {ds | ds = ['0'] ∨ (Digits ds ∧ ds.head? ≠ some '0')}

/-- A point and digits. -/
def fractions : Language Char := {['.']} * digitRuns

/-- A letter, a sign or none, and digits. -/
def powers : Language Char := {['e'], ['E']} * ((1 + {['+'], ['-']}) * digitRuns)

/-- Numbers with whole parts of the given form. -/
def numerals (whole : Language Char) : Language Char :=
  (1 + {['-']}) * (whole * ((1 + fractions) * (1 + powers)))

/-! ### The longest beginning -/

/-- Of the beginnings of a text that are in a language, the longest, and what is
left after it. -/
structure Longest (l : Language Char) (input text rest : List Char) : Prop where
  split : input = text ++ rest
  mem : text ∈ l
  longest : ∀ other left, input = other ++ left → other ∈ l → other.length ≤ text.length

/-- No beginning of the text is in the language. -/
def Lacks (l : Language Char) (input : List Char) : Prop :=
  ∀ text rest, input = text ++ rest → text ∉ l

variable {l m : Language Char} {input text mid rest : List Char}

/-- There is one longest beginning at most. -/
theorem Longest.unique {text' rest' : List Char} (h : Longest l input text rest)
    (h' : Longest l input text' rest') : text = text' ∧ rest = rest' := by
  refine List.append_inj (h.split.symm.trans h'.split) (Nat.le_antisymm ?_ ?_)
  · exact h'.longest _ _ h.split h.mem
  · exact h.longest _ _ h'.split h'.mem

/-- What is longest in a language is so in any that has the same beginnings of
the input. -/
theorem Longest.congr (h : Longest l input text rest)
    (same : ∀ text rest, input = text ++ rest → (text ∈ l ↔ text ∈ m)) :
    Longest m input text rest where
  split := h.split
  mem := (same _ _ h.split).1 h.mem
  longest other left e found := h.longest other left e ((same other left e).2 found)

/-- Two parts, one after the other: a first part that ends before it must leaves
nothing to the second. -/
theorem Longest.mul {first second : List Char} (hl : Longest l input first mid)
    (hm : Longest m mid second rest)
    (early : ∀ other left, input = other ++ left → other ∈ l → other.length < first.length →
      ∀ more after, left = more ++ after → more ∈ m → more = []) :
    Longest (l * m) input (first ++ second) rest where
  split := by rw [hl.split, hm.split, List.append_assoc]
  mem := Language.append_mem_mul hl.mem hm.mem
  longest := by
    intro whole after e found
    obtain ⟨other, hother, more, hmore, rfl⟩ := Language.mem_mul.1 found
    rw [List.append_assoc] at e
    rw [List.length_append, List.length_append]
    rcases Nat.lt_or_eq_of_le (hl.longest other _ e hother) with less | same
    · have nothing := early other _ e hother less more after rfl hmore
      rw [nothing, List.length_nil]
      omega
    · obtain ⟨-, left⟩ := List.append_inj (e.symm.trans hl.split) same
      have le := hm.longest more after left.symm hmore
      omega

/-- Where the second part is nowhere, neither are both. -/
theorem Longest.lacks_mul {first : List Char} (hl : Longest l input first mid) (hm : Lacks m mid)
    (early : ∀ other left, input = other ++ left → other ∈ l → other.length < first.length →
      Lacks m left) : Lacks (l * m) input := by
  intro whole after e found
  obtain ⟨other, hother, more, hmore, rfl⟩ := Language.mem_mul.1 found
  rw [List.append_assoc] at e
  rcases Nat.lt_or_eq_of_le (hl.longest other _ e hother) with less | same
  · exact early other _ e hother less more after rfl hmore
  · obtain ⟨-, left⟩ := List.append_inj (e.symm.trans hl.split) same
    exact hm more after left.symm hmore

/-- What may be there is there. -/
theorem Longest.present (h : Longest l input text rest) : Longest (1 + l) input text rest where
  split := h.split
  mem := .inr h.mem
  longest := by
    rintro other left e (rfl | found)
    · exact Nat.zero_le _
    · exact h.longest other left e found

/-- What may be there is not. -/
theorem Lacks.absent (h : Lacks l input) : Longest (1 + l) input [] input where
  split := rfl
  mem := .inl rfl
  longest := by
    rintro other left e (rfl | found)
    · exact Nat.le_refl _
    · exact absurd found (h other left e)

/-- A language of single characters. -/
def Single (l : Language Char) : Prop := ∀ x ∈ l, x.length = 1

/-- In a language of single characters the first character is the longest
beginning. -/
theorem Single.longest {c : Char} (h : Single l) (found : [c] ∈ l) (rest : List Char) :
    Longest l (c :: rest) [c] rest where
  split := rfl
  mem := found
  longest other _ _ hother := Nat.le_of_eq (h other hother)

/-- After a single character, the longest of what may follow it. -/
theorem Single.mul {c : Char} {after : List Char} (h : Single l) (found : [c] ∈ l)
    (hm : Longest m after text rest) : Longest (l * m) (c :: after) (c :: text) rest := by
  refine (h.longest found after).mul hm fun other left e hother less => ?_
  rw [h other hother] at less
  exact absurd less (Nat.lt_irrefl 1)

/-- Where no such character begins the input, nothing that starts with one
does. -/
theorem Single.lacks_mul (h : Single l)
    (later : ∀ c after, input = c :: after → [c] ∈ l → Lacks m after) : Lacks (l * m) input := by
  rintro whole rest rfl found
  obtain ⟨first, hfirst, more, hmore, rfl⟩ := Language.mem_mul.1 found
  obtain ⟨c, rfl⟩ := List.length_eq_one_iff.1 (h first hfirst)
  exact later c (more ++ rest) rfl hfirst more rest rfl hmore

theorem single_point : Single {['.']} := by
  rintro x rfl
  rfl

theorem single_letter : Single {['e'], ['E']} := by
  rintro x (rfl | rfl) <;> rfl

/-! ### Digits -/

/-- Every text begins with digits or with none, up to a character that is no
digit. -/
theorem digits_or_digitless (input : List Char) :
    Digitless input ∨ ∃ ds rest, input = ds ++ rest ∧ Digits ds ∧ Digitless rest := by
  have stop : Digitless (input.dropWhile Char.isDigit) := by
    intro c head
    have other := List.head?_dropWhile_not Char.isDigit input
    rw [head] at other
    exact other
  have whole := (List.takeWhile_append_dropWhile (p := Char.isDigit) (l := input)).symm
  by_cases none_there : input.takeWhile Char.isDigit = []
  · rw [none_there, List.nil_append] at whole
    exact .inl (whole ▸ stop)
  · exact .inr ⟨_, _, whole, ⟨none_there, List.all_eq_true.1 List.all_takeWhile⟩, stop⟩

/-- Where fewer digits are taken, a digit comes next. -/
theorem digit_of_early {ds other left : List Char} (h : Digits ds)
    (e : ds ++ rest = other ++ left) (less : other.length < ds.length) :
    ∃ c more, left = c :: more ∧ c.isDigit = true := by
  rcases List.append_eq_append_iff.1 e with ⟨extra, longer, -⟩ | ⟨extra, rfl, rfl⟩
  · rw [longer, List.length_append] at less
    omega
  · cases extra with
    | nil => exact absurd (by simp) (Nat.not_le.2 less)
    | cons c extra => exact ⟨c, _, rfl, h.2 c (by simp)⟩

/-- Input that begins with no digit begins with no run of digits. -/
theorem lacks_digitRuns (h : Digitless input) : Lacks digitRuns input := by
  rintro text rest rfl ⟨some_digit, digits⟩
  obtain ⟨c, more, rfl⟩ := List.exists_cons_of_ne_nil some_digit
  exact Bool.false_ne_true ((h c rfl).symm.trans (digits c List.mem_cons_self))

/-- All digits up to what is none are the longest run. -/
theorem longest_digitRuns {ds : List Char} (h : Digits ds) (stop : Digitless rest) :
    Longest digitRuns (ds ++ rest) ds rest where
  split := rfl
  mem := h
  longest := by
    intro other left e digits
    by_contra more
    obtain ⟨c, left', rfl, digit⟩ := digit_of_early digits e.symm (Nat.lt_of_not_le more)
    rw [stop c rfl] at digit
    cases digit

/-! ### Signs -/

/-- Single characters that are no digits. -/
def Marks (marks : Language Char) : Prop := ∀ x ∈ marks, ∃ c, x = [c] ∧ c.isDigit = false

/-- A text begins with the mark, or has none and the mark is empty; without its
mark it would begin with no digit. -/
structure Marked (marks : Language Char) (input mark digits : List Char) : Prop where
  longest : Longest (1 + marks) input mark digits
  early : ∀ other left, input = other ++ left → other ∈ 1 + marks → other.length < mark.length →
    Digitless left

/-- Every input has a mark in front, or none. -/
theorem exists_marked {marks : Language Char} (single : Marks marks) (input : List Char) :
    ∃ mark digits, Marked marks input mark digits := by
  by_cases begins : ∃ c after, input = c :: after ∧ [c] ∈ marks
  · obtain ⟨c, after, rfl, found⟩ := begins
    -- Marks are single characters, so that the first one decides.
    have alone : Single marks := by
      intro x hx
      obtain ⟨d, rfl, -⟩ := single x hx
      rfl
    refine ⟨[c], after, (alone.longest found after).present, ?_⟩
    intro other left e h less
    obtain rfl := List.length_eq_zero_iff.1 (Nat.lt_one_iff.1 less)
    obtain ⟨d, same, other⟩ := single [c] found
    cases same
    rw [List.nil_append] at e
    subst e
    rintro d ⟨⟩
    exact other
  · have lacks : Lacks marks input := by
      rintro text rest rfl found
      obtain ⟨c, rfl, -⟩ := single text found
      exact begins ⟨c, rest, rfl, found⟩
    exact ⟨[], input, lacks.absent, fun other left e h less => absurd less (Nat.not_lt_zero _)⟩

/-- The mark of a text, and the longest of what begins with a digit after it. -/
theorem Marked.mul {marks : Language Char} {mark digits : List Char}
    (h : Marked marks input mark digits) (begins : ∀ input, Digitless input → Lacks m input)
    (hm : Longest m digits text rest) : Longest ((1 + marks) * m) input (mark ++ text) rest := by
  refine h.longest.mul hm fun other left e found less more after split hmore => ?_
  exact absurd hmore (begins left (h.early other left e found less) more after split)

/-- What is lacking behind a mark is lacking with it. -/
theorem Marked.lacks_mul {marks : Language Char} {mark digits : List Char}
    (h : Marked marks input mark digits) (begins : ∀ input, Digitless input → Lacks m input)
    (hm : Lacks m digits) : Lacks ((1 + marks) * m) input :=
  h.longest.lacks_mul hm fun other left e found less =>
    begins left (h.early other left e found less)

/-- Without a mark, the text begins with none of them. -/
theorem Marked.not_mem {marks : Language Char} {digits : List Char} {c : Char}
    {after : List Char} (h : Marked marks input [] digits) (e : digits = c :: after) :
    [c] ∉ marks := by
  intro found
  have split : input = [c] ++ after := by rw [h.longest.split, e]; rfl
  exact absurd (h.longest.longest [c] after split (.inr found)) (Nat.not_succ_le_zero 0)

theorem marks_minus : Marks {['-']} := by
  rintro x rfl
  exact ⟨'-', rfl, rfl⟩

theorem marks_plus_minus : Marks {['+'], ['-']} := by
  rintro x (rfl | rfl)
  · exact ⟨'+', rfl, rfl⟩
  · exact ⟨'-', rfl, rfl⟩

/-! ### Fractions and powers -/

/-- Powers begin with their letter. -/
theorem lacks_powers {c : Char} (other : ¬(c = 'e' ∨ c = 'E')) (left : List Char) :
    Lacks powers (c :: left) := by
  refine single_letter.lacks_mul ?_
  rintro d after ⟨⟩ (letter | letter)
  · exact absurd (.inl (List.cons.inj letter).1) other
  · exact absurd (.inr (List.cons.inj letter).1) other

theorem not_letter {c : Char} (digit : c.isDigit = true) : ¬(c = 'e' ∨ c = 'E') := by
  rintro (rfl | rfl) <;> cases digit

/-- No fraction begins with a digit. -/
theorem lacks_fractions {c : Char} (digit : c.isDigit = true) (left : List Char) :
    Lacks fractions (c :: left) := by
  refine single_point.lacks_mul ?_
  rintro d after ⟨⟩ point
  cases point
  cases digit

/-- What begins with a digit has no fraction and no power in front. -/
theorem tail_eq_nil {c : Char} {left more after : List Char} (digit : c.isDigit = true)
    (e : c :: left = more ++ after) (h : more ∈ (1 + fractions) * (1 + powers)) : more = [] := by
  obtain ⟨first, rfl | found, second, hs, rfl⟩ := Language.mem_mul.1 h
  · rcases hs with rfl | found
    · rfl
    · exact absurd found (lacks_powers (not_letter digit) left second after e)
  · rw [List.append_assoc] at e
    exact absurd found (lacks_fractions digit left first _ e)

theorem digits1_digitless (h : Digitless input) : digits1 input = none := by
  have span := spanDigits_append (List.forall_mem_nil _) h
  rw [List.nil_append] at span
  rw [digits1, span]
  rfl

/-- A fraction is taken whole, or there is none. -/
theorem fraction_longest (input : List Char) :
    (fraction input = (none, input) ∧ Lacks fractions input) ∨
      ∃ fs rest, Digits fs ∧ fraction input = (some (fs.map digitOf), rest) ∧
        Longest fractions input ('.' :: fs) rest := by
  -- Without a point there is no fraction, and a point without digits is none either.
  by_cases point : ∃ after, input = '.' :: after
  · obtain ⟨after, rfl⟩ := point
    rcases digits_or_digitless after with stop | ⟨fs, rest, rfl, digits, stop⟩
    · refine .inl ⟨by rw [fraction, digits1_digitless stop], single_point.lacks_mul ?_⟩
      rintro c rest ⟨⟩ -
      exact lacks_digitRuns stop
    · exact .inr ⟨fs, rest, digits, fraction_append digits stop,
        single_point.mul rfl (longest_digitRuns digits stop)⟩
  · refine .inl ⟨?_, single_point.lacks_mul ?_⟩
    · rw [fraction.eq_def]
      split
      · next after => exact absurd ⟨after, rfl⟩ point
      · rfl
    · rintro c after rfl found
      cases found
      exact absurd ⟨after, rfl⟩ point

/-- Without digits after its sign, a power is left where it is. -/
theorem power_digitless {c : Char} (letter : c = 'e' ∨ c = 'E') {mark digits : List Char}
    (h : Marked {['+'], ['-']} input mark digits) (stop : Digitless digits) :
    power (c :: input) = (none, c :: input) := by
  have none_there := digits1_digitless stop
  rw [h.longest.split]
  rcases h.longest.mem with rfl | rfl | rfl
  · have plus : ∀ after, digits ≠ '+' :: after := fun after e => h.not_mem e (.inl rfl)
    have minus : ∀ after, digits ≠ '-' :: after := fun after e => h.not_mem e (.inr rfl)
    rw [List.nil_append, power, if_pos letter]
    · simp only [none_there]
    · exact minus
    · exact plus
  · simp only [List.singleton_append, power, if_pos letter, none_there]
  · simp only [List.singleton_append, power, if_pos letter, none_there]

/-- A letter, a sign or none and digits are a power. -/
theorem exists_powerText {c : Char} (letter : c = 'e' ∨ c = 'E') {mark ds : List Char}
    (h : mark ∈ (1 + {['+'], ['-']} : Language Char)) (digits : Digits ds) :
    ∃ e, PowerText (c :: (mark ++ ds)) e := by
  rcases h with rfl | rfl | rfl
  · exact ⟨_, .plain letter digits⟩
  · exact ⟨_, .plus letter digits⟩
  · exact ⟨_, .minus letter digits⟩

/-- A power is taken whole, or there is none. -/
theorem power_longest (input : List Char) :
    (power input = (none, input) ∧ Lacks powers input) ∨
      ∃ ps e rest,
        PowerText ps e ∧ power input = (some e, rest) ∧ Longest powers input ps rest := by
  by_cases begins : ∃ c after, input = c :: after ∧ (c = 'e' ∨ c = 'E')
  · obtain ⟨c, after, rfl, letter⟩ := begins
    have found : [c] ∈ ({['e'], ['E']} : Language Char) := by
      rcases letter with rfl | rfl
      · exact .inl rfl
      · exact .inr rfl
    obtain ⟨mark, digits, marked⟩ := exists_marked marks_plus_minus after
    -- Behind the letter and the sign a power needs a digit.
    rcases digits_or_digitless digits with stop | ⟨ds, rest, rfl, run, stop⟩
    · refine .inl ⟨power_digitless letter marked stop, single_letter.lacks_mul ?_⟩
      rintro d more ⟨⟩ -
      exact marked.lacks_mul (fun input => lacks_digitRuns) (lacks_digitRuns stop)
    · obtain ⟨e, text⟩ := exists_powerText letter marked.longest.mem run
      refine .inr ⟨_, e, rest, text, ?_, ?_⟩
      · rw [marked.longest.split, ← List.append_assoc]
        exact power_append text stop
      · exact single_letter.mul found
          (marked.mul (fun input => lacks_digitRuns) (longest_digitRuns run stop))
  · refine .inl ⟨?_, single_letter.lacks_mul ?_⟩
    · cases input with
      | nil => rfl
      | cons c after => simp only [power, if_neg fun letter => begins ⟨c, after, rfl, letter⟩]
    · rintro c after rfl (letter | letter)
      · cases letter
        exact absurd ⟨'e', after, rfl, .inl rfl⟩ begins
      · cases letter
        exact absurd ⟨'E', after, rfl, .inr rfl⟩ begins

/-- What follows the whole part is taken as far as it goes, and says how the
number is a decimal, or that it is an integer. -/
theorem tail_longest {ds : List Char} (whole : Digits ds) (input : List Char) :
    ∃ part afterPart exponent rest text,
      fraction input = (part, afterPart) ∧ power afterPart = (exponent, rest) ∧
      Longest ((1 + fractions) * (1 + powers)) input text rest ∧
      ((text = [] ∧ part = none ∧ exponent = none) ∨
        (part.isNone && exponent.isNone) = false ∧
          FloatText (ds ++ text) (digitsValue (ds.map digitOf ++ part.getD []))
            (exponent.getD 0 - (part.getD []).length)) := by
  rcases fraction_longest input with ⟨hf, lacks⟩ | ⟨fs, mid, digits, hf, longest⟩
  · have whole_left : ∀ {text rest}, Longest (1 + powers) input text rest →
        Longest ((1 + fractions) * (1 + powers)) input text rest := fun h =>
      lacks.absent.mul h fun other left e found less => absurd less (Nat.not_lt_zero _)
    rcases power_longest input with ⟨hp, none_there⟩ | ⟨ps, e, rest, text, hp, longest⟩
    · exact ⟨_, _, _, _, [], hf, hp, whole_left none_there.absent, .inl ⟨rfl, rfl, rfl⟩⟩
    · refine ⟨_, _, _, _, ps, hf, hp, whole_left longest.present, .inr ⟨rfl, ?_⟩⟩
      simpa [digitsValue_map] using FloatText.power whole text
  · have after_fraction : ∀ {text rest}, Longest (1 + powers) mid text rest →
        Longest ((1 + fractions) * (1 + powers)) input ('.' :: fs ++ text) rest := by
      intro text rest h
      refine longest.present.mul h fun other left e found less more after split power => ?_
      -- A shorter fraction leaves a point or a digit, and no power begins with it.
      have begins : ∃ c left', left = c :: left' ∧ ¬(c = 'e' ∨ c = 'E') := by
        rcases found with rfl | found
        · exact ⟨'.', fs ++ mid, e.symm.trans longest.split, by decide⟩
        · obtain ⟨first, rfl, fs', digits', rfl⟩ := Language.mem_mul.1 found
          have rest_eq : fs ++ mid = fs' ++ left :=
            (List.cons.inj (longest.split.symm.trans e)).2
          obtain ⟨c, left', rfl, digit⟩ :=
            digit_of_early digits rest_eq (Nat.lt_of_succ_lt_succ less)
          exact ⟨c, left', rfl, not_letter digit⟩
      obtain ⟨c, left', rfl, other⟩ := begins
      rcases power with rfl | found
      · rfl
      · exact absurd found (lacks_powers other left' more after split)
    rcases power_longest mid with ⟨hp, none_there⟩ | ⟨ps, e, rest, text, hp, longest⟩
    · refine ⟨_, _, _, _, _, hf, hp, after_fraction none_there.absent, .inr ⟨rfl, ?_⟩⟩
      rw [List.append_nil]
      simpa [← digitsValue_map] using FloatText.fraction whole digits
    · refine ⟨_, _, _, _, _, hf, hp, after_fraction longest.present, .inr ⟨rfl, ?_⟩⟩
      simpa [← digitsValue_map] using FloatText.both whole digits text

/-! ### Numbers -/

theorem sign_or_mark {mark : List Char} (h : mark ∈ (1 + {['-']} : Language Char)) :
    ∃ negative, mark = sign negative := by
  rcases h with rfl | rfl
  · exact ⟨false, rfl⟩
  · exact ⟨true, rfl⟩

/-- Without digits after the sign, nothing is read. -/
theorem number_digitless {mark digits : List Char} (h : Marked {['-']} input mark digits)
    (stop : Digitless digits) : number input = .soft [⟨digits, unknownReason⟩] := by
  have none_there := digits1_digitless stop
  rw [h.longest.split]
  rcases h.longest.mem with rfl | rfl
  · have minus : ∀ after, digits ≠ '-' :: after := fun after e => h.not_mem e rfl
    rw [List.nil_append, number]
    · simp only [none_there]
      rfl
    · exact minus
  · simp only [List.singleton_append, number, none_there]
    rfl

/-- What is read of a text as a number: nothing where no number is there, and
otherwise the longest, as an integer that has 64 bits or has not, or as a decimal. -/
inductive ReadsNumber (input : List Char) : Prop
  | none {digits : List Char} (left : digits <:+ input)
      (read : number input = .soft [⟨digits, unknownReason⟩])
      (lacks : Lacks (numerals digitRuns) input)
  | int {text rest : List Char} {i : Int} (longest : Longest (numerals digitRuns) input text rest)
      (spells : (Lexeme.int i).Spells text) (range : IntegerRange.int64.has i = true)
      (read : number input = .ok (.int i) rest)
  | large {text rest : List Char} {i : Int}
      (longest : Longest (numerals digitRuns) input text rest)
      (spells : (Lexeme.int i).Spells text) (range : IntegerRange.int64.has i = false)
      (read : number input = .hard [⟨input, "Integer literal out of range"⟩])
  | float {text rest : List Char} {x : Binary64}
      (longest : Longest (numerals digitRuns) input text rest)
      (spells : (Lexeme.float x).Spells text) (read : number input = .ok (.float x) rest)

/-- Every input is either a numeral and what follows, or begins with none. -/
theorem readsNumber (input : List Char) : ReadsNumber input := by
  obtain ⟨mark, digits, marked⟩ := exists_marked marks_minus input
  have begins : ∀ left, Digitless left →
      Lacks (digitRuns * ((1 + fractions) * (1 + powers))) left := by
    rintro left stop text rest rfl found
    obtain ⟨ds, run, more, -, rfl⟩ := Language.mem_mul.1 found
    exact lacks_digitRuns stop ds _ (List.append_assoc _ _ _) run
  rcases digits_or_digitless digits with stop | ⟨ds, after, rfl, run, stop⟩
  · exact .none ⟨mark, marked.longest.split.symm⟩ (number_digitless marked stop)
      (marked.lacks_mul begins (begins digits stop))
  · obtain ⟨part, afterPart, exponent, rest, text, hf, hp, longest, spelled⟩ :=
      tail_longest run after
    have unsigned : Longest (digitRuns * ((1 + fractions) * (1 + powers))) (ds ++ after)
        (ds ++ text) rest := by
      refine (longest_digitRuns run stop).mul longest
        fun other left e _ less more tail split h => ?_
      obtain ⟨c, left', rfl, digit⟩ := digit_of_early run e less
      exact tail_eq_nil digit split h
    obtain ⟨negative, rfl⟩ := sign_or_mark marked.longest.mem
    have whole := marked.mul begins unsigned
    have read := number_parts negative run stop hf hp
    rw [← marked.longest.split] at read
    -- A whole number alone is an integer, and in range or not; with a fraction
    -- or a power it is a float.
    rcases spelled with ⟨rfl, rfl, rfl⟩ | ⟨some_part, float⟩
    · rw [List.append_nil] at whole
      simp only [Option.isNone_none, Bool.and_self, if_true] at read
      by_cases range : IntegerRange.int64.has
          (if negative then -(digitsNumber ds : Int) else digitsNumber ds) = true
      · rw [if_pos range] at read
        exact .int whole (.int negative run) range read
      · rw [if_neg range] at read
        exact .large whole (.int negative run) (Bool.eq_false_iff.2 range) read
    · rw [some_part, if_neg Bool.false_ne_true] at read
      exact .float whole (.float negative float) read

/-! ### One text, one value -/

/-- A sign is told apart from the digits behind it. -/
theorem sign_append_inj {negative negative' : Bool} {ds ds' : List Char} {more more' : List Char}
    (h : Digits ds) (h' : Digits ds')
    (e : sign negative ++ (ds ++ more) = sign negative' ++ (ds' ++ more')) :
    negative = negative' ∧ ds ++ more = ds' ++ more' := by
  obtain ⟨c, rest, rfl⟩ := List.exists_cons_of_ne_nil h.1
  obtain ⟨c', rest', rfl⟩ := List.exists_cons_of_ne_nil h'.1
  have digit := (digits_head h).1
  have digit' := (digits_head h').1
  cases negative <;> cases negative'
  · exact ⟨rfl, e⟩
  · exact absurd (List.cons.inj e).1 digit
  · exact absurd (List.cons.inj e).1.symm digit'
  · exact ⟨rfl, (List.cons.inj e).2⟩

/-- A text spells one integer at most. -/
theorem spells_int_unique {i j : Int} (hi : (Lexeme.int i).Spells text)
    (hj : (Lexeme.int j).Spells text) : i = j := by
  generalize hl : Lexeme.int i = l at hi
  cases hi with
  | @int negative ds digits =>
    generalize hm : Lexeme.int j = m at hj
    generalize ht : sign negative ++ ds = text at hj
    cases hj with
    | @int negative' ds' digits' =>
      rw [← List.append_nil ds, ← List.append_nil ds'] at ht
      obtain ⟨rfl, same⟩ := sign_append_inj digits digits' ht
      rw [List.append_nil, List.append_nil] at same
      subst same
      exact Lexeme.int.inj (hl.trans hm.symm)
    | _ => cases hm
  | _ => cases hl

/-- What a decimal is read as, before a blank. -/
theorem number_of_spells_float {x : Binary64} (h : (Lexeme.float x).Spells text) :
    number (text ++ [' ']) = .ok (.float x) [' '] := by
  cases h with
  | float negative form => exact takes_float negative form ' ' [] (by decide)

/-- A text that spells an integer spells no float. -/
theorem not_spells_both {i : Int} {x : Binary64} (hi : (Lexeme.int i).Spells text) :
    ¬(Lexeme.float x).Spells text := by
  intro hx
  have read := number_of_spells_float hx
  cases hi with
  | int negative digits =>
    obtain ⟨stop, hp, he⟩ := breaks_end_number (c := ' ') (by decide) []
    rw [List.append_assoc, number_parts negative digits stop hp he] at read
    rw [Option.isNone_none, Option.isNone_none, Bool.and_self, if_pos rfl] at read
    generalize (if negative then -(digitsNumber _ : Int) else digitsNumber _) = i at read
    dsimp only at read
    split at read <;> cases read

/-- A text spells one float at most. -/
theorem spells_float_unique {x y : Binary64} (hx : (Lexeme.float x).Spells text)
    (hy : (Lexeme.float y).Spells text) : x = y := by
  have read := (number_of_spells_float hx).symm.trans (number_of_spells_float hy)
  cases read
  rfl

/-! ### The longest number -/

/-- Of a text, the longest beginning in the language is read as a number: as an
integer with its value if it is one of 64 bits, as a decimal if it has a
fraction or a power.  An integer of more bits is wrong for good, and where no
beginning is in the language another alternative may follow. -/
structure TakesLongest (l : Language Char) (input : List Char) : Prop where
  ok : ∀ v rest, number input = .ok v rest ↔ ∃ text, Longest l input text rest ∧
    ((∃ i, v = .int i ∧ (Lexeme.int i).Spells text ∧ IntegerRange.int64.has i = true) ∨
      ∃ x, v = .float x ∧ (Lexeme.float x).Spells text)
  hard : (∃ trail, number input = .hard trail) ↔ ∃ text rest i, Longest l input text rest ∧
    (Lexeme.int i).Spells text ∧ IntegerRange.int64.has i = false
  soft : (∃ trail, number input = .soft trail) ↔ Lacks l input

/-- The longest numeral is taken as an integer if it spells one, and refused
beyond 64 bits. -/
theorem number_of_int {i : Int} (h : Longest (numerals digitRuns) input text rest)
    (int : (Lexeme.int i).Spells text) :
    number input = if IntegerRange.int64.has i then .ok (.int i) rest
      else .hard [⟨input, "Integer literal out of range"⟩] := by
  cases readsNumber input with
  | none left read lacks => exact absurd h.mem (lacks text rest h.split)
  | int longest spells range read =>
    obtain ⟨rfl, rfl⟩ := h.unique longest
    rw [spells_int_unique int spells, if_pos range, read]
  | large longest spells range read =>
    obtain ⟨rfl, rfl⟩ := h.unique longest
    rw [spells_int_unique int spells, if_neg (Bool.eq_false_iff.1 range), read]
  | float longest spells read =>
    obtain ⟨rfl, rfl⟩ := h.unique longest
    exact absurd spells (not_spells_both int)

/-- The longest numeral is taken as a float if it spells one. -/
theorem number_of_float {x : Binary64} (h : Longest (numerals digitRuns) input text rest)
    (float : (Lexeme.float x).Spells text) : number input = .ok (.float x) rest := by
  cases readsNumber input with
  | none left read lacks => exact absurd h.mem (lacks text rest h.split)
  | int longest spells range read =>
    obtain ⟨rfl, rfl⟩ := h.unique longest
    exact absurd float (not_spells_both spells)
  | large longest spells range read =>
    obtain ⟨rfl, rfl⟩ := h.unique longest
    exact absurd float (not_spells_both spells)
  | float longest spells read =>
    obtain ⟨rfl, rfl⟩ := h.unique longest
    rwa [spells_float_unique float spells]

theorem takesLongest_digitRuns (input : List Char) : TakesLongest (numerals digitRuns) input := by
  -- Every outcome of the parser is one of four, and each speaks of the longest numeral.
  refine ⟨fun v rest => ⟨fun e => ?_, ?_⟩, ⟨?_, ?_⟩, ?_, fun lacks => ?_⟩
  · cases readsNumber input with
    | none left read lacks => cases read.symm.trans e
    | int longest spells range read =>
      cases read.symm.trans e
      exact ⟨_, longest, .inl ⟨_, rfl, spells, range⟩⟩
    | large longest spells range read => cases read.symm.trans e
    | float longest spells read =>
      cases read.symm.trans e
      exact ⟨_, longest, .inr ⟨_, rfl, spells⟩⟩
  · rintro ⟨text, h, ⟨i, rfl, int, range⟩ | ⟨x, rfl, float⟩⟩
    · rw [number_of_int h int, if_pos range]
    · exact number_of_float h float
  · rintro ⟨trail, e⟩
    cases readsNumber input with
    | none left read lacks => cases read.symm.trans e
    | int longest spells range read => cases read.symm.trans e
    | large longest spells range read => exact ⟨_, _, _, longest, spells, range⟩
    | float longest spells read => cases read.symm.trans e
  · rintro ⟨text, rest, i, h, int, range⟩
    rw [number_of_int h int, if_neg (Bool.eq_false_iff.1 range)]
    exact ⟨_, rfl⟩
  · rintro ⟨trail, e⟩
    cases readsNumber input with
    | none left read lacks => exact lacks
    | int longest spells range read => cases read.symm.trans e
    | large longest spells range read => cases read.symm.trans e
    | float longest spells read => cases read.symm.trans e
  · cases readsNumber input with
    | none left read lacks' => exact ⟨_, read⟩
    | int longest => exact absurd longest.mem (lacks _ _ longest.split)
    | large longest => exact absurd longest.mem (lacks _ _ longest.split)
    | float longest => exact absurd longest.mem (lacks _ _ longest.split)

/-- Languages with the same beginnings of the input are taken alike. -/
theorem TakesLongest.congr (h : TakesLongest l input)
    (same : ∀ text rest, input = text ++ rest → (text ∈ l ↔ text ∈ m)) : TakesLongest m input := by
  have longest : ∀ text rest, Longest l input text rest ↔ Longest m input text rest := by
    refine fun text rest => ⟨fun found => found.congr same, fun found => found.congr ?_⟩
    exact fun text rest e => (same text rest e).symm
  have lacks : Lacks l input ↔ Lacks m input :=
    forall₃_congr fun text rest e => not_congr (same text rest e)
  constructor
  · intro v rest
    simp only [← longest, h.ok]
  · simp only [← longest, h.hard]
  · exact h.soft.trans lacks

/-! ### Zeros in front -/

/-- A number begins with a zero and another digit. -/
def LeadingZero (input : List Char) : Prop :=
  ∃ negative d rest, input = sign negative ++ '0' :: d :: rest ∧ d.isDigit = true

/-- A numeral is a sign or none, a whole number, and perhaps a fraction and a
power. -/
theorem mem_numerals {whole : Language Char} : text ∈ numerals whole ↔
    ∃ negative, ∃ ds ∈ whole, ∃ more ∈ (1 + fractions) * (1 + powers),
      text = sign negative ++ (ds ++ more) := by
  constructor
  · intro h
    obtain ⟨mark, hmark, unsigned, found, rfl⟩ := Language.mem_mul.1 h
    obtain ⟨ds, hds, more, hmore, rfl⟩ := Language.mem_mul.1 found
    obtain ⟨negative, rfl⟩ := sign_or_mark hmark
    exact ⟨negative, ds, hds, more, hmore, rfl⟩
  · rintro ⟨negative, ds, hds, more, hmore, rfl⟩
    refine Language.append_mem_mul ?_ (Language.append_mem_mul hds hmore)
    cases negative
    · exact .inl rfl
    · exact .inr rfl

theorem digits_of_plainWhole {ds : List Char} (h : ds ∈ plainWhole) : Digits ds := by
  rcases h with rfl | ⟨digits, -⟩
  · exact ⟨List.cons_ne_nil _ _, List.forall_mem_singleton.2 rfl⟩
  · exact digits

/-- Without a zero in front, the documented numbers are those that are read. -/
theorem mem_numerals_iff (h : ¬LeadingZero input) (e : input = text ++ rest) :
    text ∈ numerals digitRuns ↔ text ∈ numerals plainWhole := by
  rw [mem_numerals, mem_numerals]
  constructor
  · rintro ⟨negative, ds, digits, more, hmore, rfl⟩
    refine ⟨negative, ds, ?_, more, hmore, rfl⟩
    -- More digits behind a first zero would be a leading zero.
    by_cases zero : ds.head? = some '0'
    · obtain ⟨ds, rfl⟩ := List.head?_eq_some_iff.1 zero
      cases ds with
      | nil => exact .inl rfl
      | cons d ds =>
        refine absurd ⟨negative, d, ds ++ (more ++ rest), ?_, digits.2 d (by simp)⟩ h
        simp [e]
    · exact .inr ⟨digits, zero⟩
  · rintro ⟨negative, ds, plain, more, hmore, rfl⟩
    exact ⟨negative, ds, digits_of_plainWhole plain, more, hmore, rfl⟩

/-- A documented number ends after a zero before a digit. -/
theorem eq_zero_of_plain {negative : Bool} {d : Char} {after : List Char}
    (digit : d.isDigit = true) (h : text ∈ numerals plainWhole)
    (e : sign negative ++ '0' :: d :: after = text ++ rest) : text = sign negative ++ ['0'] := by
  obtain ⟨negative', ds, plain, more, hmore, rfl⟩ := mem_numerals.1 h
  have zero : Digits ['0'] := ⟨List.cons_ne_nil _ _, List.forall_mem_singleton.2 rfl⟩
  have e : sign negative ++ (['0'] ++ d :: after) = sign negative' ++ (ds ++ (more ++ rest)) := by
    simpa using e
  obtain ⟨rfl, same⟩ := sign_append_inj zero (digits_of_plainWhole plain) e
  rcases plain with rfl | ⟨digits, other⟩
  · have none_left : more = [] := tail_eq_nil digit (List.cons.inj same).2 hmore
    rw [none_left, List.append_nil]
  · obtain ⟨c, cs, rfl⟩ := List.exists_cons_of_ne_nil digits.1
    exact absurd (congrArg some (List.cons.inj same).1.symm) other

theorem nil_mem_tail : [] ∈ (1 + fractions) * (1 + powers) :=
  Language.mem_mul.2 ⟨[], .inl rfl, [], .inl rfl, rfl⟩

/-- With a zero in front, more is read than the documented number. -/
theorem not_takesLongest_of_leadingZero (h : LeadingZero input) :
    ¬TakesLongest (numerals plainWhole) input := by
  obtain ⟨negative, d, after, e, digit⟩ := h
  intro documented
  have two : sign negative ++ ['0', d] ∈ numerals digitRuns :=
    mem_numerals.2 ⟨negative, ['0', d], ⟨List.cons_ne_nil _ _, by simp [digit]⟩, [], nil_mem_tail,
      by simp⟩
  have split : input = (sign negative ++ ['0', d]) ++ after := by simp [e]
  -- Whatever is read, the text is longer than the documented one.
  have longer : ∀ {text rest}, Longest (numerals digitRuns) input text rest →
      text ∉ numerals plainWhole := by
    intro text rest longest plain
    have short := eq_zero_of_plain digit plain (e.symm.trans longest.split)
    have long := longest.longest _ _ split two
    simp [short] at long
  have outcome := takesLongest_digitRuns input
  cases read : number input with
  | ok v rest =>
    obtain ⟨text, longest, -⟩ := (outcome.ok v rest).1 read
    obtain ⟨text', longest', -⟩ := (documented.ok v rest).1 read
    have same : text' = text := List.append_cancel_right (longest'.split.symm.trans longest.split)
    exact longer longest (same ▸ longest'.mem)
  | hard trail =>
    obtain ⟨text, rest, i, longest, int, range⟩ := documented.hard.1 ⟨trail, read⟩
    have short := eq_zero_of_plain digit longest.mem (e.symm.trans longest.split)
    have zero : Digits ['0'] := ⟨List.cons_ne_nil _ _, List.forall_mem_singleton.2 rfl⟩
    rw [short] at int
    rw [spells_int_unique int (.int negative zero)] at range
    cases negative <;> cases range
  | soft trail => exact outcome.soft.1 ⟨trail, read⟩ _ _ split two

/-- **The longest beginning that is a number is read**, zeros in front being
admitted; it is the longest documented one exactly if there are none. -/
theorem number_takes_longest (input : List Char) :
    TakesLongest (numerals digitRuns) input ∧
      (TakesLongest (numerals plainWhole) input ↔ ¬LeadingZero input) := by
  refine ⟨takesLongest_digitRuns input, fun h zero => not_takesLongest_of_leadingZero zero h, ?_⟩
  intro plain
  exact (takesLongest_digitRuns input).congr fun text rest e => mem_numerals_iff plain e

namespace Sample

/-- Three digits are read as one number where the documented one ends after the
first. -/
theorem not_longest_documented :
    ¬(∀ input, TakesLongest (numerals plainWhole) input) ∧
      number "007".toList = .ok (.int 7) [] :=
  ⟨fun h => not_takesLongest_of_leadingZero ⟨false, '0', ['7'], rfl, rfl⟩ (h "007".toList), rfl⟩

end Sample

end EntityQuery.Document
