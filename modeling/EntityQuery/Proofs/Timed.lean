/-
EntityQuery/Proofs/Timed.lean

The order of whole texts of dates and moments.

The strict form of a moment is a case of the loose one as far as the offset
(`strictDate_date`, `strictTime_time`), so a text in either form is a date, a
time of day after blanks or a letter, and an offset or none
(`Moment.Spelled`).  Aligned texts are in the order of the moments, if the
offsets are the same (`Moment.Spelled.compare_eq`): if all before them is the
same, the texts of the offsets are the same, too (`OffsetSpelled.advances`).
Texts of the same shape are aligned, if they have no fractions
(`SameShape.aligned`), and dates in the strict form are of the same shape
(`strictDate_shape`).
-/
import EntityQuery.Proofs.Orderly
import Mathlib.Data.List.DropRight

namespace EntityQuery

namespace Calendar

variable {text rest cs ds rs ss : List Char}

/-! ### The strict form in the loose one -/

theorem trimStart_of_number {least most n : Nat} (positive : 1 ≤ least)
    (h : number least most text = .ok (n, rest)) : Text.trimStart text = text := by
  obtain ⟨c, more, rfl, digit⟩ := isDigit_of_number positive h
  rw [Text.trimStart, List.dropWhile_cons, isBlank_isDigit digit]
  rfl

/-- Fewer digits may be asked for. -/
theorem number_of_least {least least' most n : Nat} (fewer : least' ≤ least)
    (h : number least most text = .ok (n, rest)) : number least' most text = .ok (n, rest) := by
  have bytes : ¬(text.foldl (fun n c => n + c.utf8Size) 0) < least := by
    intro short
    rw [number, if_pos short] at h
    cases h
  obtain ⟨-, -, enough⟩ := number_eq_ok h
  rw [number, if_neg bytes] at h
  rw [number, if_neg (by omega)]
  dsimp only at h ⊢
  rw [if_neg (by omega)] at h
  rwa [if_neg (by omega)]

theorem strictField_eq_ok {width first last n : Nat}
    (h : strictField width first last text = .ok (n, rest)) :
    number width width text = .ok (n, rest) ∧ first ≤ n ∧ n ≤ last := by
  obtain ⟨⟨m, more⟩, read, h⟩ := Outcome.bind_eq_ok.1 h
  dsimp only at h
  split at h
  · next bounds =>
    cases h
    exact ⟨read, bounds⟩
  · cases h

theorem strictField_field {first last n : Nat}
    (h : strictField 2 first last text = .ok (n, rest)) :
    field first last text = .ok (n, rest) := by
  obtain ⟨read, bounds⟩ := strictField_eq_ok h
  have loose := number_of_least (by decide : 1 ≤ 2) read
  rw [field, trimStart_of_number le_rfl loose, loose, Outcome.ok_bind]
  exact if_pos bounds

theorem year_of_number {n : Nat} (h : number 4 4 text = .ok (n, rest)) :
    year text = .ok ((n : Int), rest) := by
  have loose := number_of_least (by decide : 1 ≤ 4) h
  have small : n < 10 ^ 4 := by
    obtain ⟨rfl, -, enough⟩ := number_eq_ok h
    have bound := scaled_lt 4 text
    rwa [← scaled_eq, Nat.sub_eq_zero_of_le enough, Nat.pow_zero, Nat.mul_one] at bound
  obtain ⟨c, more, rfl, digit⟩ := isDigit_of_number le_rfl loose
  -- A digit is no sign, so that the year is read as it stands.
  have minus : c ≠ '-' := by
    rintro rfl
    exact absurd digit (by decide)
  have plus : c ≠ '+' := by
    rintro rfl
    exact absurd digit (by decide)
  simp only [year, trimStart_of_number le_rfl loose]
  split
  · next same => exact (minus (List.cons.inj same).1).elim
  · next same => exact (plus (List.cons.inj same).1).elim
  · rw [loose]
    exact if_pos (by omega)

/-- What is a date in the strict form is the same date in the loose form. -/
theorem strictDate_date {d : Date} (h : strictDate text = .ok (d, rest)) :
    date text = .ok (d, rest) := by
  obtain ⟨⟨y, text₁⟩, year, h⟩ := Outcome.bind_eq_ok.1 h
  obtain ⟨text₂, dash, h⟩ := Outcome.bind_eq_ok.1 h
  obtain ⟨⟨m, text₃⟩, month, h⟩ := Outcome.bind_eq_ok.1 h
  obtain ⟨text₄, dash', h⟩ := Outcome.bind_eq_ok.1 h
  obtain ⟨⟨n, text₅⟩, day, h⟩ := Outcome.bind_eq_ok.1 h
  exact Outcome.bind_eq_ok.2 ⟨_, year_of_number year, Outcome.bind_eq_ok.2 ⟨_, dash,
    Outcome.bind_eq_ok.2 ⟨_, strictField_field month, Outcome.bind_eq_ok.2 ⟨_, dash',
      Outcome.bind_eq_ok.2 ⟨_, strictField_field day, h⟩⟩⟩⟩⟩

/-- What is a time of day in the strict form is the same in the loose form. -/
theorem strictTime_time {t : TimeOfDay} (h : strictTime text = .ok (t, rest)) :
    time text = .ok (t, rest) := by
  obtain ⟨⟨n, text₁⟩, hour, h⟩ := Outcome.bind_eq_ok.1 h
  obtain ⟨text₂, colon, h⟩ := Outcome.bind_eq_ok.1 h
  obtain ⟨⟨m, text₃⟩, minute, h⟩ := Outcome.bind_eq_ok.1 h
  obtain ⟨text₄, colon', h⟩ := Outcome.bind_eq_ok.1 h
  obtain ⟨⟨s, text₅⟩, second, h⟩ := Outcome.bind_eq_ok.1 h
  exact Outcome.bind_eq_ok.2 ⟨_, strictField_field hour, Outcome.bind_eq_ok.2 ⟨_, colon,
    Outcome.bind_eq_ok.2 ⟨_, strictField_field minute, Outcome.bind_eq_ok.2 ⟨_, colon',
      Outcome.bind_eq_ok.2 ⟨_, strictField_field second, h⟩⟩⟩⟩⟩

/-- Blanks before a time of day are passed. -/
theorem time_trimStart (text : List Char) : time (Text.trimStart text) = time text := by
  have once : Text.trimStart (Text.trimStart text) = Text.trimStart text := by
    rw [Text.trimStart, Text.trimStart, List.dropWhile_idempotent]
  rw [time, field, once]
  rfl

/-! ### Texts of the same shape -/

/-- The same characters at the same places, except that digits may stand for
other digits. -/
def SameShape (cs ds : List Char) : Prop :=
  List.Forall₂ (fun c d => c = d ∨ c.isDigit = true ∧ d.isDigit = true) cs ds

theorem SameShape.spanDigits_length (h : SameShape cs ds) :
    (spanDigits cs).1.length = (spanDigits ds).1.length := by
  induction h with
  | nil => rfl
  | @cons c d cs ds here _ ih =>
    rcases Bool.eq_false_or_eq_true c.isDigit with hc | mark
    · have hd : d.isDigit = true := by
        rcases here with rfl | ⟨-, hd⟩
        · exact hc
        · exact hd
      rw [spanDigits_cons hc, spanDigits_cons hd, List.length_cons, List.length_cons, ih]
    · have same : c = d := here.resolve_right fun digits =>
        Bool.false_ne_true (mark.symm.trans digits.1)
      rw [← same, spanDigits_mark mark, spanDigits_mark mark]

/-- Without a fraction, texts of the same shape are aligned. -/
theorem SameShape.aligned (h : SameShape cs ds) (noPoint : '.' ∉ cs) : Aligned cs ds := by
  induction h with
  | nil => exact .nil
  | @cons c d cs ds here later ih =>
    rw [List.mem_cons, not_or] at noPoint
    obtain ⟨first, rest⟩ := noPoint
    by_cases same : c = d
    · obtain rfl := same
      refine .skip ?_
      simp only [placeAfter, if_neg (Ne.symm first), Option.map_none, ite_self]
      exact ih rest
    · obtain ⟨hc, hd⟩ := here.resolve_left same
      exact .whole hc hd same (SameShape.spanDigits_length later)

/-- A number of a fixed width is spelled by as many digits. -/
theorem digits_of_number {width n : Nat} (h : number width width text = .ok (n, rest)) :
    ∃ digits : List Char, text = digits ++ rest ∧ digits.length = width ∧
      ∀ c ∈ digits, c.isDigit = true := by
  -- Taking as many digits as there should be leaves none out.
  have taken : ∀ (w : Nat) (text : List Char), w ≤ (takeDigits w text).1.length →
      ∃ digits : List Char, text = digits ++ (takeDigits w text).2 ∧ digits.length = w ∧
        ∀ c ∈ digits, c.isDigit = true := by
    intro w
    induction w with
    | zero => exact fun text _ => ⟨[], rfl, rfl, nofun⟩
    | succ w ih =>
      intro text enough
      cases text with
      | nil => cases enough
      | cons c more =>
        rcases Bool.eq_false_or_eq_true c.isDigit with digit | mark
        · rw [takeDigits_cons digit] at enough ⊢
          obtain ⟨digits, split, length, all⟩ := ih more (Nat.le_of_succ_le_succ enough)
          refine ⟨c :: digits, ?_, congrArg Nat.succ length, List.forall_mem_cons.2 ⟨digit, all⟩⟩
          rw [List.cons_append, ← split]
        · rw [takeDigits_mark mark] at enough
          cases enough
  obtain ⟨-, rfl, enough⟩ := number_eq_ok h
  exact taken width text enough

theorem sameShape_digits (length : cs.length = ds.length) (hc : ∀ c ∈ cs, c.isDigit = true)
    (hd : ∀ d ∈ ds, d.isDigit = true) : SameShape cs ds := by
  refine List.forall₂_iff_zip.2 ⟨length, fun pair => .inr ⟨?_, ?_⟩⟩
  · exact hc _ (List.of_mem_zip pair).1
  · exact hd _ (List.of_mem_zip pair).2

/-- Dates in the strict form are spelled in the same shape, and without a
point. -/
theorem strictDate_shape {d e : Date} (hd : strictDate cs = .ok (d, []))
    (he : strictDate ds = .ok (e, [])) : SameShape cs ds ∧ '.' ∉ cs := by
  -- Four, two and two digits with dashes between them.
  have layout {text : List Char} {d : Date} (h : strictDate text = .ok (d, [])) :
      ∃ y m n : List Char, text = y ++ '-' :: (m ++ '-' :: n) ∧
        (y.length = 4 ∧ m.length = 2 ∧ n.length = 2) ∧
        (∀ c ∈ y, c.isDigit = true) ∧ (∀ c ∈ m, c.isDigit = true) ∧ ∀ c ∈ n, c.isDigit = true := by
    obtain ⟨⟨y, text₁⟩, year, h⟩ := Outcome.bind_eq_ok.1 h
    obtain ⟨text₂, dash, h⟩ := Outcome.bind_eq_ok.1 h
    obtain ⟨⟨m, text₃⟩, month, h⟩ := Outcome.bind_eq_ok.1 h
    obtain ⟨text₄, dash', h⟩ := Outcome.bind_eq_ok.1 h
    obtain ⟨⟨n, text₅⟩, day, h⟩ := Outcome.bind_eq_ok.1 h
    cases h
    obtain ⟨ys, rfl, lengthY, digitsY⟩ := digits_of_number year
    obtain rfl := mark_eq_ok dash
    obtain ⟨ms, rfl, lengthM, digitsM⟩ := digits_of_number (strictField_eq_ok month).1
    obtain rfl := mark_eq_ok dash'
    obtain ⟨ns, rfl, lengthN, digitsN⟩ := digits_of_number (strictField_eq_ok day).1
    exact ⟨ys, ms, ns, by rw [List.append_nil], ⟨lengthY, lengthM, lengthN⟩, digitsY, digitsM,
      digitsN⟩
  obtain ⟨y, m, n, rfl, ⟨lengthY, lengthM, lengthN⟩, digitsY, digitsM, digitsN⟩ := layout hd
  obtain ⟨y', m', n', rfl, ⟨lengthY', lengthM', lengthN'⟩, digitsY', digitsM', digitsN'⟩ :=
    layout he
  constructor
  · exact List.rel_append (sameShape_digits (lengthY.trans lengthY'.symm) digitsY digitsY')
      (.cons (.inl rfl) (List.rel_append
        (sameShape_digits (lengthM.trans lengthM'.symm) digitsM digitsM')
        (.cons (.inl rfl) (sameShape_digits (lengthN.trans lengthN'.symm) digitsN digitsN'))))
  · intro point
    have digit : ∀ {text : List Char}, (∀ c ∈ text, c.isDigit = true) → '.' ∉ text :=
      fun all mem => absurd (all _ mem) (by decide)
    simp [digit digitsY, digit digitsM, digit digitsN] at point

/-! ### Times of day -/

theorem fraction_lt {n : Nat} (h : fraction text = .ok (n, rest)) : n < 1000000000 := by
  simp only [fraction] at h
  split at h
  · next more =>
    obtain ⟨rfl, -⟩ := nanoseconds_eq_ok h
    exact scaled_lt 9 more
  · cases h
    decide

theorem proper_of_time {t : TimeOfDay} (h : time text = .ok (t, rest)) : t.Proper := by
  obtain ⟨⟨n, text₁⟩, hour, h⟩ := Outcome.bind_eq_ok.1 h
  obtain ⟨text₂, -, h⟩ := Outcome.bind_eq_ok.1 h
  obtain ⟨⟨m, text₃⟩, minute, h⟩ := Outcome.bind_eq_ok.1 h
  obtain ⟨text₄, -, h⟩ := Outcome.bind_eq_ok.1 h
  obtain ⟨⟨s, text₅⟩, -, h⟩ := Outcome.bind_eq_ok.1 h
  obtain ⟨⟨k, text₆⟩, part, h⟩ := Outcome.bind_eq_ok.1 h
  cases h
  exact ⟨(field_eq_ok hour).2.2, (field_eq_ok minute).2.2, fraction_lt part⟩

/-! ### Offsets -/

/-- How an offset is spelled: as a letter, or as hours and minutes after a
sign. -/
inductive OffsetSpelled (rest : List Char) : List Char → Int → Prop
  | letter {c : Char} (universal : c = 'Z' ∨ c = 'z') : OffsetSpelled rest (c :: rest) 0
  | signed {c : Char} {behind : Bool} {text text₁ text₂ : List Char} {h m : Nat}
      (sign : behind = false ∧ c = '+' ∨ behind = true ∧ (c = '-' ∨ c = '−'))
      (hour : strictField 2 0 23 text = .ok (h, text₁)) (colon : mark ':' text₁ = .ok text₂)
      (minute : strictField 2 0 59 text₂ = .ok (m, rest)) :
      OffsetSpelled rest (c :: text)
        (if behind then -((h : Int) * 3600 + m * 60) else (h : Int) * 3600 + m * 60)

theorem offset_eq_ok {o : Int} (h : offset text = .ok (o, rest)) : OffsetSpelled rest text o := by
  simp only [offset] at h
  -- An offset is the letter of zero, or a sign with hours and minutes.
  split at h
  · cases h
    exact .letter (.inl rfl)
  · cases h
    exact .letter (.inr rfl)
  · obtain ⟨⟨behind, text₁⟩, sign, h⟩ := Outcome.bind_eq_ok.1 h
    obtain ⟨⟨n, text₂⟩, hour, h⟩ := Outcome.bind_eq_ok.1 h
    obtain ⟨text₃, colon, h⟩ := Outcome.bind_eq_ok.1 h
    obtain ⟨⟨m, text₄⟩, minute, h⟩ := Outcome.bind_eq_ok.1 h
    cases h
    cases text with
    | nil => cases sign
    | cons c text =>
      simp only [offsetSign] at sign
      split at sign
      · next plus =>
        cases sign
        exact .signed (.inl ⟨rfl, plus⟩) hour colon minute
      · split at sign
        · next minus =>
          cases sign
          exact .signed (.inr ⟨rfl, minus⟩) hour colon minute
        · cases sign

/-- Aligned offsets of the same value are the same texts. -/
theorem OffsetSpelled.advances {o p : Int} (hx : OffsetSpelled rs cs o)
    (hy : OffsetSpelled ss ds p) (aligned : Aligned cs ds) (same : o = p) :
    Advances cs ds .eq rs ss := by
  cases hx with
  | @letter c universal =>
    have mark : c.isDigit = false := by rcases universal with rfl | rfl <;> decide
    cases hy with
    | letter =>
      obtain rfl := aligned.head (.inl mark)
      refine .skip aligned ?_
      rcases universal with rfl | rfl <;> decide
    | signed sign =>
      obtain rfl := aligned.head (.inl mark)
      rcases universal with rfl | rfl <;> simp at sign
  | @signed c behind text text₁ text₂ h m sign hour colon minute =>
    have mark : c.isDigit = false := by
      rcases sign with ⟨-, rfl⟩ | ⟨-, rfl | rfl⟩ <;> decide
    cases hy with
    | letter universal =>
      obtain rfl := aligned.head (.inl mark)
      rcases universal with rfl | rfl <;> simp at sign
    | @signed c' behind' text' text₁' text₂' h' m' sign' hour' colon' minute' =>
      obtain rfl := aligned.head (.inl mark)
      have behinds : behind = behind' := by
        rcases sign with ⟨rfl, rfl⟩ | ⟨rfl, rfl | rfl⟩ <;> simp at sign' <;> exact sign'.symm
      obtain ⟨hourX, -, -⟩ := strictField_eq_ok hour
      obtain ⟨hourY, -, -⟩ := strictField_eq_ok hour'
      obtain ⟨minuteX, -, minuteLast⟩ := strictField_eq_ok minute
      obtain ⟨minuteY, -, minuteLast'⟩ := strictField_eq_ok minute'
      -- The minutes are less than an hour.
      have numbers : h = h' ∧ m = m' := by
        rw [behinds] at same
        split at same <;> omega
      obtain ⟨rfl, rfl⟩ := numbers
      have noPoint : c ≠ '.' := by
        rcases sign with ⟨-, rfl⟩ | ⟨-, rfl | rfl⟩ <;> decide
      have signs := Advances.skip aligned noPoint
      have hours := orderly_number 2 2 (signs.aligned rfl) hourX hourY
      rw [compare_eq_iff_eq.2 rfl] at hours
      have colons := mark_advances (by decide) (hours.aligned rfl) colon colon'
      have minutes := orderly_number 2 2 (colons.aligned rfl) minuteX minuteY
      rw [compare_eq_iff_eq.2 rfl] at minutes
      exact signs.trans fun _ => hours.trans fun _ => colons.trans fun _ => minutes

/-! ### After a date -/

/-- How a time of day is spelled after a date: with blanks before it, or after
a letter. -/
inductive TimeSpelled (t : TimeOfDay) (rest : List Char) : List Char → Prop
  | plain {text : List Char} (read : time text = .ok (t, rest)) : TimeSpelled t rest text
  | letter {c : Char} {text : List Char} (mark : c = 'T' ∨ c = 't')
      (read : time text = .ok (t, rest)) : TimeSpelled t rest (c :: text)

theorem TimeSpelled.proper {t : TimeOfDay} (h : TimeSpelled t rest text) : t.Proper := by
  cases h with
  | plain read => exact proper_of_time read
  | letter _ read => exact proper_of_time read

/-- No time of day begins with a letter. -/
theorem time_letter {c : Char} (mark : c = 'T' ∨ c = 't') {t : TimeOfDay} :
    time (c :: text) ≠ .ok (t, rest) := by
  intro read
  obtain ⟨⟨n, more⟩, hour, -⟩ := Outcome.bind_eq_ok.1 read
  have unchanged : Text.trimStart (c :: text) = c :: text := by
    rcases mark with rfl | rfl <;> rfl
  obtain ⟨d, more', same, digit⟩ := isDigit_of_number le_rfl (field_eq_ok hour).1
  rw [unchanged] at same
  cases same
  rcases mark with rfl | rfl <;> cases digit

theorem TimeSpelled.advances {t u : TimeOfDay} (hx : TimeSpelled t rs cs)
    (hy : TimeSpelled u ss ds) (aligned : Aligned cs ds) : Advances cs ds (t.order u) rs ss := by
  cases hx with
  | plain readX =>
    cases hy with
    | plain readY => exact time_advances aligned readX readY
    | @letter c text mark readY =>
      have letter : c.isDigit = false := by rcases mark with rfl | rfl <;> rfl
      -- The letter before a time stands in both texts or in none, since it is a mark.
      obtain ⟨more, rfl⟩ := aligned.symm.of_mark letter
      exact absurd readX (time_letter mark)
  | @letter c text mark readX =>
    have letter : c.isDigit = false := by rcases mark with rfl | rfl <;> rfl
    obtain ⟨more, rfl⟩ := aligned.of_mark letter
    cases hy with
    | plain readY => exact absurd readY (time_letter mark)
    | letter _ readY =>
      have noPoint : c ≠ '.' := by rcases mark with rfl | rfl <;> decide
      have letters := Advances.skip aligned noPoint
      exact letters.trans fun same => time_advances (letters.aligned same) readX readY

theorem finish_eq_ok {u : Unit} (h : finish text = .ok u) : text = [] := by
  simp only [finish] at h
  split at h
  · next empty => exact List.isEmpty_iff.1 empty
  · cases h

theorem existing_eq_ok {d : Date} {u : Unit} (h : existing d = .ok u) : d.exists? = true := by
  simp only [existing] at h
  split at h
  · next there => exact there
  · cases h

end Calendar

/-! ### Whole texts -/

/-- A text of a date is that of a day that exists. -/
theorem Date.read_eq_ok {text : String} {d : Date} (h : read text = .ok d) :
    Calendar.date text.toList = .ok (d, []) ∧ d.exists? = true := by
  obtain ⟨⟨d', rest⟩, front, h⟩ := Outcome.bind_eq_ok.1 h
  obtain ⟨_, ended, h⟩ := Outcome.bind_eq_ok.1 h
  obtain ⟨_, there, h⟩ := Outcome.bind_eq_ok.1 h
  cases h
  rw [Calendar.finish_eq_ok ended] at front
  exact ⟨front, Calendar.existing_eq_ok there⟩

namespace Moment

/-- How a moment is spelled: as a day that exists, a time of day, and an offset
or none. -/
inductive Spelled (m : Moment) : List Char → Prop
  | mk {text afterDate afterTime : List Char}
      (date : Calendar.date text = .ok (m.date, afterDate))
      (time : Calendar.TimeSpelled m.time afterTime afterDate)
      (offset : afterTime = [] ∧ m.offset = 0 ∨ Calendar.offset afterTime = .ok (m.offset, []))
      (there : m.date.exists? = true) : Spelled m text

theorem spelled_of_strict {text : String} {m : Moment} (h : readStrict text = .ok m) :
    m.Spelled text.toList := by
  obtain ⟨⟨d, afterDate⟩, date, h⟩ := Outcome.bind_eq_ok.1 h
  dsimp only at h
  split at h
  · cases h
  next c rest =>
    split at h
    · next mark =>
      obtain ⟨_, passed, h⟩ := Outcome.bind_eq_ok.1 h
      cases passed
      obtain ⟨⟨t, afterTime⟩, time, h⟩ := Outcome.bind_eq_ok.1 h
      obtain ⟨⟨o, afterOffset⟩, offset, h⟩ := Outcome.bind_eq_ok.1 h
      obtain ⟨_, ended, h⟩ := Outcome.bind_eq_ok.1 h
      obtain ⟨_, there, h⟩ := Outcome.bind_eq_ok.1 h
      cases h
      obtain rfl : afterOffset = [] := Calendar.finish_eq_ok ended
      refine .mk (Calendar.strictDate_date date) ?_ (.inr offset) (Calendar.existing_eq_ok there)
      have read := Calendar.strictTime_time time
      simp only [isTimeMark, Bool.or_eq_true, decide_eq_true_eq] at mark
      rcases mark with mark | rfl
      · exact .letter mark read
      · -- The space is one of the blanks that a time of day may have before it.
        refine .plain ?_
        rw [← Calendar.time_trimStart] at read ⊢
        exact read
    · cases h

theorem spelled_of_loose {text : String} {m : Moment} (h : readLoose text = .ok m) :
    m.Spelled text.toList := by
  obtain ⟨⟨d, afterDate⟩, date, h⟩ := Outcome.bind_eq_ok.1 h
  obtain ⟨⟨t, afterTime⟩, time, h⟩ := Outcome.bind_eq_ok.1 h
  obtain ⟨_, ended, h⟩ := Outcome.bind_eq_ok.1 h
  obtain ⟨_, there, h⟩ := Outcome.bind_eq_ok.1 h
  cases h
  rw [Calendar.time_trimStart] at time
  exact .mk date (.plain time) (.inl ⟨Calendar.finish_eq_ok ended, rfl⟩)
    (Calendar.existing_eq_ok there)

theorem spelled_of_read {text : String} {m : Moment} (h : read text = .ok m) :
    m.Spelled text.toList := by
  rw [read] at h
  split at h
  · next m' strict =>
    cases h
    exact spelled_of_strict strict
  · exact spelled_of_loose h

/-- Aligned texts of moments are in the order of the moments, if the offsets are
the same, and the years are not before the year zero. -/
theorem Spelled.compare_eq {m n : Moment} {cs ds : List Char} (hm : m.Spelled cs)
    (hn : n.Spelled ds) (aligned : Aligned cs ds)
    (later : m.date.year = n.date.year ∨ 0 ≤ m.date.year ∧ 0 ≤ n.date.year)
    (offset : m.offset = n.offset) : compare cs ds = compare m.instant n.instant := by
  obtain ⟨dateX, timeX, offsetX, thereX⟩ := hm
  obtain ⟨dateY, timeY, offsetY, thereY⟩ := hn
  rw [compare_instant thereX thereY timeX.proper timeY.proper offset]
  have dates := Calendar.date_advances aligned dateX dateY later
  have times := dates.trans fun same => timeX.advances timeY (dates.aligned same)
  -- Both texts have an offset or neither has: no rest is aligned with the empty one.
  rcases offsetX with ⟨rfl, -⟩ | offsetX
  · refine times.decides fun same => ?_
    cases times.aligned same
    rfl
  · rcases offsetY with ⟨rfl, -⟩ | offsetY
    · refine times.decides fun same => ?_
      cases times.aligned same
      rfl
    · rw [offset] at offsetX
      have ends := times.trans fun same => (Calendar.offset_eq_ok offsetX).advances
        (Calendar.offset_eq_ok offsetY) (times.aligned same) rfl
      rw [Ordering.then_eq] at ends
      exact ends.decides fun _ => rfl

end Moment

end EntityQuery
