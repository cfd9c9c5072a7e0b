/-
EntityQuery/Proofs/Orderly.lean

The order of what is read from texts.

A date and a time of day are read number by number, the weightiest first.
Each number orders the aligned texts that it is read from (`Orderly`), and if
it is the same in both, what is left of the texts is ordered by the next one.
So dates and times of day order the texts that they are read from
(`date_advances`, `time_advances`).  The exception are years before the year
zero, which are ordered backwards.
-/
import EntityQuery.Proofs.Aligned
import EntityQuery.Proofs.Chronology
import EntityQuery.Proofs.Outcome

namespace EntityQuery.Calendar

variable {cs ds rs ss : List Char}

/-! ### Numbers and marks -/

/-- The readings of two aligned texts decide their order. -/
def Orderly {α : Type} [Ord α] (read : List Char → Except DateFault (α × List Char)) : Prop :=
  ∀ {cs ds rs ss : List Char} {x y : α}, Aligned cs ds → read cs = .ok (x, rs) →
    read ds = .ok (y, ss) → Advances cs ds (compare x y) rs ss

/-- A number is spelled by the digits at the front. -/
theorem number_eq_ok {least most n : Nat} {text rest : List Char}
    (h : number least most text = .ok (n, rest)) :
    n = digitsValue (takeDigits most text).1 ∧ rest = (takeDigits most text).2 ∧
      least ≤ (takeDigits most text).1.length := by
  simp only [number] at h
  split at h
  · cases h
  split at h
  · cases h
  next enough =>
    split at h
    · cases h
    · cases h
      exact ⟨rfl, rfl, not_lt.1 enough⟩

theorem orderly_number (least most : Nat) : Orderly (number least most) := by
  intro cs ds rs ss x y aligned hx hy
  obtain ⟨rfl, rfl, -⟩ := number_eq_ok hx
  obtain ⟨rfl, rfl, -⟩ := number_eq_ok hy
  exact digitsValue_advances most aligned

/-- Blanks that both texts begin with decide nothing. -/
theorem trimStart_advances (aligned : Aligned cs ds) :
    Advances cs ds .eq (Text.trimStart cs) (Text.trimStart ds) := by
  induction cs generalizing ds with
  | nil =>
    cases aligned
    exact .refl .nil
  | cons c cs ih =>
    cases aligned with
    | @skip _ _ _ ds rest =>
      have whole : Aligned (c :: cs) (c :: ds) := .skip rest
      rw [Text.trimStart, Text.trimStart, List.dropWhile_cons, List.dropWhile_cons]
      split
      · next blank =>
        -- A blank is no point, so that skipping it keeps the texts aligned.
        have noPoint : c ≠ '.' := by
          rintro rfl
          exact absurd blank (by decide)
        have first := Advances.skip whole noPoint
        exact first.trans fun same => ih (first.aligned same)
      · exact .refl whole
    | whole hc hd differ width =>
      rw [Text.trimStart, Text.trimStart, List.dropWhile_cons, List.dropWhile_cons,
        isBlank_isDigit hc, isBlank_isDigit hd]
      exact .refl (.whole hc hd differ width)

/-- A field is a number of one or two digits within its bounds. -/
theorem field_eq_ok {first last n : Nat} {text rest : List Char}
    (h : field first last text = .ok (n, rest)) :
    number 1 2 (Text.trimStart text) = .ok (n, rest) ∧ first ≤ n ∧ n ≤ last := by
  obtain ⟨⟨m, more⟩, read, h⟩ := Outcome.bind_eq_ok.1 h
  dsimp only at h
  split at h
  · next bounds =>
    cases h
    exact ⟨read, bounds⟩
  · cases h

theorem orderly_field (first last : Nat) : Orderly (field first last) := by
  intro cs ds rs ss x y aligned hx hy
  have blanks := trimStart_advances aligned
  exact blanks.trans fun same =>
    orderly_number 1 2 (blanks.aligned same) (field_eq_ok hx).1 (field_eq_ok hy).1

theorem mark_eq_ok {c : Char} {text rest : List Char} (h : mark c text = .ok rest) :
    text = c :: rest := by
  cases text with
  | nil => cases h
  | cons d more =>
    simp only [mark] at h
    split at h
    · next same =>
      cases h
      rw [same]
    · cases h

/-- A mark that both texts have decides nothing. -/
theorem mark_advances {c : Char} (noPoint : c ≠ '.') (aligned : Aligned cs ds)
    (hx : mark c cs = .ok rs) (hy : mark c ds = .ok ss) : Advances cs ds .eq rs ss := by
  obtain rfl := mark_eq_ok hx
  obtain rfl := mark_eq_ok hy
  exact .skip aligned noPoint

/-! ### Years -/

/-- How a year is spelled: any number of digits after a sign, or four at most
without one. -/
inductive YearSpelled : List Char → Int → List Char → Prop
  | minus (digits : List Char) :
      YearSpelled ('-' :: digits) (-digitsValue (spanDigits digits).1) (spanDigits digits).2
  | plus (digits : List Char) :
      YearSpelled ('+' :: digits) (digitsValue (spanDigits digits).1) (spanDigits digits).2
  | plain {c : Char} (digits : List Char) (first : c.isDigit = true) :
      YearSpelled (c :: digits) (digitsValue (takeDigits 4 (c :: digits)).1)
        (takeDigits 4 (c :: digits)).2

/-- A number begins with a digit. -/
theorem isDigit_of_number {least most n : Nat} {text rest : List Char} (positive : 1 ≤ least)
    (h : number least most text = .ok (n, rest)) :
    ∃ c more, text = c :: more ∧ c.isDigit = true := by
  obtain ⟨-, -, enough⟩ := number_eq_ok h
  cases text with
  | nil =>
    have empty : (takeDigits most []).1.length = 0 := by cases most <;> rfl
    omega
  | cons c more =>
    refine ⟨c, more, rfl, ?_⟩
    by_contra mark
    rw [takeDigits_mark (Bool.eq_false_iff.2 mark)] at enough
    exact absurd enough (by simp; omega)

theorem year_eq_ok {text rest : List Char} {y : Int} (h : year text = .ok (y, rest)) :
    YearSpelled (Text.trimStart text) y rest := by
  have bounded {y' : Int} {more : List Char}
      (h : (if -2147483648 ≤ y' ∧ y' ≤ 2147483647 then pure (y', more) else throw .outOfRange :
        Except DateFault (Int × List Char)) = .ok (y, rest)) : y' = y ∧ more = rest := by
    split at h
    · cases h
      exact ⟨rfl, rfl⟩
    · cases h
  simp only [year] at h
  split at h
  · next digits trimmed =>
    obtain ⟨⟨n, more⟩, spelled, h⟩ := Outcome.bind_eq_ok.1 h
    obtain ⟨rfl, rfl⟩ := bounded h
    obtain ⟨rfl, rfl, -⟩ := number_eq_ok spelled
    rw [trimmed, takeDigits_eq_spanDigits (spanDigits_length_le digits)]
    exact .minus digits
  · next digits trimmed =>
    obtain ⟨⟨n, more⟩, spelled, h⟩ := Outcome.bind_eq_ok.1 h
    obtain ⟨rfl, rfl⟩ := bounded h
    obtain ⟨rfl, rfl, -⟩ := number_eq_ok spelled
    rw [trimmed, takeDigits_eq_spanDigits (spanDigits_length_le digits)]
    exact .plus digits
  · obtain ⟨⟨n, more⟩, spelled, h⟩ := Outcome.bind_eq_ok.1 h
    obtain ⟨rfl, rfl⟩ := bounded h
    obtain ⟨c, digits, trimmed, first⟩ := isDigit_of_number le_rfl spelled
    obtain ⟨rfl, rfl, -⟩ := number_eq_ok spelled
    rw [trimmed]
    exact .plain digits first

/-- Years order aligned texts unless they are before the year zero. -/
theorem YearSpelled.advances {x y : Int} (hx : YearSpelled cs x rs) (hy : YearSpelled ds y ss)
    (aligned : Aligned cs ds) (later : x = y ∨ 0 ≤ x ∧ 0 ≤ y) :
    Advances cs ds (compare x y) rs ss := by
  cases hx with
  | minus digits =>
    cases hy with
    | minus digits' =>
      -- Years after a minus are not before the year zero only if both are that year.
      have sign := Advances.skip aligned (by decide)
      have same : digitsValue (spanDigits digits).1 = digitsValue (spanDigits digits').1 := by
        omega
      have all := sign.trans fun same => spanDigits_advances (sign.aligned same)
      rw [same, compare_eq_iff_eq.2 rfl] at all
      rwa [same, compare_eq_iff_eq.2 rfl]
    | plus => exact absurd (aligned.head (.inl rfl)) (by decide)
    | plain _ first =>
      obtain rfl := aligned.head (.inl rfl)
      exact absurd first (by decide)
  | plus digits =>
    cases hy with
    | minus => exact absurd (aligned.head (.inl rfl)) (by decide)
    | plus digits' =>
      have sign := Advances.skip aligned (by decide)
      rw [compare_natCast]
      exact sign.trans fun same => spanDigits_advances (sign.aligned same)
    | plain _ first =>
      obtain rfl := aligned.head (.inl rfl)
      exact absurd first (by decide)
  | plain _ first =>
    cases hy with
    | plain =>
      rw [compare_natCast]
      exact digitsValue_advances 4 aligned
    | _ =>
      obtain rfl := aligned.head (.inr rfl)
      exact absurd first (by decide)

/-- Years decide by their numbers, below zero only where they are the same. -/
theorem year_advances {x y : Int} (aligned : Aligned cs ds) (hx : year cs = .ok (x, rs))
    (hy : year ds = .ok (y, ss)) (later : x = y ∨ 0 ≤ x ∧ 0 ≤ y) :
    Advances cs ds (compare x y) rs ss := by
  have blanks := trimStart_advances aligned
  exact blanks.trans fun same =>
    (year_eq_ok hx).advances (year_eq_ok hy) (blanks.aligned same) later

/-! ### Fractions -/

theorem nanoseconds_eq_ok {text rest : List Char} {n : Nat}
    (h : nanoseconds text = .ok (n, rest)) : n = scaled 9 text ∧ rest = (spanDigits text).2 := by
  obtain ⟨⟨m, more⟩, read, h⟩ := Outcome.bind_eq_ok.1 h
  cases h
  obtain ⟨rfl, rfl, -⟩ := number_eq_ok read
  exact ⟨scaled_eq 9 text, spanDigits_rest 9 text⟩

/-- Fractions of a second are read orderly. -/
theorem orderly_fraction : Orderly fraction := by
  intro cs ds rs ss x y aligned hx hy
  simp only [fraction] at hx hy
  -- One text has a fraction exactly if the other has.
  split at hx
  · next more =>
    obtain ⟨more', rfl⟩ := aligned.of_mark (by decide)
    obtain ⟨rfl, rfl⟩ := nanoseconds_eq_ok hx
    obtain ⟨rfl, rfl⟩ := nanoseconds_eq_ok hy
    have digits := scaled_advances aligned.tail
    refine ⟨?_, digits.aligned⟩
    rw [compare_cons, compare_eq_iff_eq.2 (rfl : '.' = '.'), Ordering.eq_then]
    exact digits.order
  · next noPoint =>
    split at hy
    · obtain ⟨more, rfl⟩ := aligned.symm.of_mark (by decide)
      exact (noPoint more rfl).elim
    · cases hx
      cases hy
      exact .refl aligned

/-! ### Dates and times -/

/-- Dates order the aligned texts that they are read from, unless their years are
before the year zero. -/
theorem date_advances {d e : Date} (aligned : Aligned cs ds) (hd : date cs = .ok (d, rs))
    (he : date ds = .ok (e, ss)) (later : d.year = e.year ∨ 0 ≤ d.year ∧ 0 ≤ e.year) :
    Advances cs ds (d.order e) rs ss := by
  obtain ⟨⟨y, cs₁⟩, yearX, hd⟩ := Outcome.bind_eq_ok.1 hd
  obtain ⟨cs₂, dashX, hd⟩ := Outcome.bind_eq_ok.1 hd
  obtain ⟨⟨m, cs₃⟩, monthX, hd⟩ := Outcome.bind_eq_ok.1 hd
  obtain ⟨cs₄, dashX', hd⟩ := Outcome.bind_eq_ok.1 hd
  obtain ⟨⟨n, cs₅⟩, dayX, hd⟩ := Outcome.bind_eq_ok.1 hd
  obtain ⟨⟨y', ds₁⟩, yearY, he⟩ := Outcome.bind_eq_ok.1 he
  obtain ⟨ds₂, dashY, he⟩ := Outcome.bind_eq_ok.1 he
  obtain ⟨⟨m', ds₃⟩, monthY, he⟩ := Outcome.bind_eq_ok.1 he
  obtain ⟨ds₄, dashY', he⟩ := Outcome.bind_eq_ok.1 he
  obtain ⟨⟨n', ds₅⟩, dayY, he⟩ := Outcome.bind_eq_ok.1 he
  cases hd
  cases he
  -- Part by part; each is read from where the one before it stopped in both texts.
  have years := year_advances aligned yearX yearY later
  refine years.trans fun same => ?_
  have dash := mark_advances (by decide) (years.aligned same) dashX dashY
  refine dash.trans fun same => ?_
  have months := orderly_field 1 12 (dash.aligned same) monthX monthY
  refine months.trans fun same => ?_
  have dash' := mark_advances (by decide) (months.aligned same) dashX' dashY'
  refine dash'.trans fun same => ?_
  exact orderly_field 1 31 (dash'.aligned same) dayX dayY

/-- Times of day order the aligned texts that they are read from. -/
theorem time_advances {t u : TimeOfDay} (aligned : Aligned cs ds) (ht : time cs = .ok (t, rs))
    (hu : time ds = .ok (u, ss)) : Advances cs ds (t.order u) rs ss := by
  obtain ⟨⟨h, cs₁⟩, hourX, ht⟩ := Outcome.bind_eq_ok.1 ht
  obtain ⟨cs₂, colonX, ht⟩ := Outcome.bind_eq_ok.1 ht
  obtain ⟨⟨m, cs₃⟩, minuteX, ht⟩ := Outcome.bind_eq_ok.1 ht
  obtain ⟨cs₄, colonX', ht⟩ := Outcome.bind_eq_ok.1 ht
  obtain ⟨⟨s, cs₅⟩, secondX, ht⟩ := Outcome.bind_eq_ok.1 ht
  obtain ⟨⟨n, cs₆⟩, fractionX, ht⟩ := Outcome.bind_eq_ok.1 ht
  obtain ⟨⟨h', ds₁⟩, hourY, hu⟩ := Outcome.bind_eq_ok.1 hu
  obtain ⟨ds₂, colonY, hu⟩ := Outcome.bind_eq_ok.1 hu
  obtain ⟨⟨m', ds₃⟩, minuteY, hu⟩ := Outcome.bind_eq_ok.1 hu
  obtain ⟨ds₄, colonY', hu⟩ := Outcome.bind_eq_ok.1 hu
  obtain ⟨⟨s', ds₅⟩, secondY, hu⟩ := Outcome.bind_eq_ok.1 hu
  obtain ⟨⟨n', ds₆⟩, fractionY, hu⟩ := Outcome.bind_eq_ok.1 hu
  cases ht
  cases hu
  have hours := orderly_field 0 23 aligned hourX hourY
  refine hours.trans fun same => ?_
  have colon := mark_advances (by decide) (hours.aligned same) colonX colonY
  refine colon.trans fun same => ?_
  have minutes := orderly_field 0 59 (colon.aligned same) minuteX minuteY
  refine minutes.trans fun same => ?_
  have colon' := mark_advances (by decide) (minutes.aligned same) colonX' colonY'
  refine colon'.trans fun same => ?_
  have seconds := orderly_field 0 60 (colon'.aligned same) secondX secondY
  refine seconds.trans fun same => ?_
  exact orderly_fraction (seconds.aligned same) fractionX fractionY

end EntityQuery.Calendar
