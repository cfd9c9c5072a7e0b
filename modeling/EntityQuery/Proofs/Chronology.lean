/-
EntityQuery/Proofs/Chronology.lean

Days and moments in the order of time.

Days are numbered one after the other (`Date.dayNumber_next`), and a point of
time is a minute, by the second of universal time in which it begins, and the
nanoseconds since (`Instant`); so a leap second belongs to the minute that it
ends.  Days that exist are numbered in the order of their years, then months,
then days (`Date.compare_dayNumber`), and moments with the same offset are in
the order of their days, then of their times of day
(`Moment.compare_instant`).
-/
import EntityQuery.Scalar.Calendar
import Mathlib.Algebra.Order.Group.Int
import Mathlib.Data.Prod.Lex
import Mathlib.Order.Compare

namespace EntityQuery

/-! ### Numbers with a remainder -/

/-- Numbers are ordered by their quotients and then by their remainders. -/
theorem compare_mul_add {a b x y k : Int} (hx : 0 ≤ x ∧ x < k) (hy : 0 ≤ y ∧ y < k) :
    compare (a * k + x) (b * k + y) = (compare a b).then (compare x y) := by
  have below {a b : Int} (less : a < b) : a * k + k ≤ b * k := by
    have product : (a + 1) * k ≤ b * k := Int.mul_le_mul_of_nonneg_right less (by omega)
    rwa [Int.add_mul, Int.one_mul] at product
  rcases lt_trichotomy a b with less | rfl | greater
  · have quotient := below less
    rw [compare_lt_iff_lt.2 less, compare_lt_iff_lt.2 (by omega), Ordering.lt_then]
  · rw [compare_eq_iff_eq.2 (rfl : a = a), Ordering.eq_then]
    rcases lt_trichotomy x y with less | rfl | greater
    · rw [compare_lt_iff_lt.2 less, compare_lt_iff_lt.2 (by omega)]
    · rw [compare_eq_iff_eq.2 rfl, compare_eq_iff_eq.2 rfl]
    · rw [compare_gt_iff_gt.2 greater, compare_gt_iff_gt.2 (by omega)]
  · have quotient := below greater
    rw [compare_gt_iff_gt.2 greater, compare_gt_iff_gt.2 (by omega), Ordering.gt_then]

theorem compare_natCast (m n : Nat) : compare (m : Int) (n : Int) = compare m n := by
  rcases lt_trichotomy m n with less | rfl | greater
  · rw [compare_lt_iff_lt.2 less, compare_lt_iff_lt.2 (by omega)]
  · rw [compare_eq_iff_eq.2 rfl, compare_eq_iff_eq.2 rfl]
  · rw [compare_gt_iff_gt.2 greater, compare_gt_iff_gt.2 (by omega)]

/-- Numbers of two digits compare by the first in which they differ. -/
theorem compare_mul_add_nat {a b x y k : Nat} (hx : x < k) (hy : y < k) :
    compare (a * k + x) (b * k + y) = (compare a b).then (compare x y) := by
  rw [← compare_natCast, ← compare_natCast a, ← compare_natCast x]
  push_cast
  exact compare_mul_add (by omega) (by omega)

theorem compare_mul {a b k : Nat} (positive : 0 < k) : compare (a * k) (b * k) = compare a b := by
  have split := compare_mul_add_nat (a := a) (b := b) positive positive
  rwa [Nat.add_zero, Nat.add_zero, compare_eq_iff_eq.2 (rfl : 0 = 0), Ordering.then_eq] at split

/-! ### Days -/

namespace Date

/-- The order of dates: by the years, then the months, then the days. -/
def order (d e : Date) : Ordering :=
  (compare d.year e.year).then ((compare d.month e.month).then (compare d.day e.day))

/-- The days from the beginning of the year one to that of a year. -/
def daysBefore (year : Int) : Int :=
  365 * (year - 1) + (year - 1) / 4 - (year - 1) / 100 + (year - 1) / 400

/-- The days of a year that the first months have. -/
def daysThrough (year : Int) : Nat → Nat
  | 0 => 0
  | month + 1 => daysThrough year month + daysIn year (month + 1)

/-- The number of a day; the first day of the year one has the number one. -/
def dayNumber (d : Date) : Int :=
  daysBefore d.year + daysThrough d.year (d.month - 1) + d.day

theorem daysThrough_le (year : Int) {m n : Nat} (h : m ≤ n) :
    daysThrough year m ≤ daysThrough year n := by
  induction h with
  | refl => exact le_rfl
  | step _ ih => exact ih.trans (Nat.le_add_right _ _)

theorem daysThrough_eq (year : Int) {month : Nat} (first : 1 ≤ month) :
    daysThrough year month = daysThrough year (month - 1) + daysIn year month := by
  conv_lhs => rw [← Nat.sub_add_cancel first, daysThrough, Nat.sub_add_cancel first]

/-- A year is as long as its months. -/
theorem daysBefore_succ (year : Int) :
    daysBefore (year + 1) = daysBefore year + daysThrough year 12 := by
  have months : daysThrough year 12 = 337 + daysIn year 2 := by
    simp [daysThrough, daysIn]
    omega
  have leap : isLeapYear year = true ↔ year % 4 = 0 ∧ (year % 100 ≠ 0 ∨ year % 400 = 0) := by
    simp [isLeapYear]
  rw [months, daysIn, if_pos rfl, daysBefore, daysBefore]
  by_cases has29 : isLeapYear year = true
  · have rule := leap.1 has29
    rw [if_pos has29]
    omega
  · have rule := leap.not.1 has29
    rw [if_neg has29]
    omega

theorem daysBefore_le {y z : Int} (h : y ≤ z) : daysBefore y ≤ daysBefore z := by
  simp only [daysBefore]
  omega

section

variable {d e : Date}

/-- A date exists if its month is one of the year and its day one of the month.
-/
theorem exists?_iff : d.exists? = true ↔
    years.has d.year = true ∧ (1 ≤ d.month ∧ d.month ≤ 12) ∧
      1 ≤ d.day ∧ d.day ≤ daysIn d.year d.month := by
  simp [exists?, and_assoc]

/-- A day of a month comes before the months after it. -/
theorem dayNumber_le_of_month (h : d.exists? = true) {month : Nat} (later : d.month < month) :
    d.dayNumber ≤ daysBefore d.year + daysThrough d.year (month - 1) := by
  obtain ⟨-, ⟨first, -⟩, -, last⟩ := exists?_iff.1 h
  have through := daysThrough_eq d.year first
  have rest := daysThrough_le d.year (m := d.month) (n := month - 1) (by omega)
  rw [dayNumber]
  omega

/-- An earlier month of the same year comes first. -/
theorem dayNumber_lt_of_month (hd : d.exists? = true) (he : e.exists? = true)
    (year : d.year = e.year) (month : d.month < e.month) : d.dayNumber < e.dayNumber := by
  obtain ⟨-, -, first, -⟩ := exists?_iff.1 he
  have before := dayNumber_le_of_month hd month
  rw [year] at before
  rw [dayNumber.eq_def e]
  omega

theorem dayNumber_lt_of_year (hd : d.exists? = true) (he : e.exists? = true)
    (year : d.year < e.year) : d.dayNumber < e.dayNumber := by
  obtain ⟨-, ⟨-, last⟩, -⟩ := exists?_iff.1 hd
  obtain ⟨-, -, first, -⟩ := exists?_iff.1 he
  calc d.dayNumber
    _ ≤ daysBefore d.year + daysThrough d.year 12 :=
        dayNumber_le_of_month hd (Nat.lt_succ_of_le last)
    _ = daysBefore (d.year + 1) := (daysBefore_succ d.year).symm
    _ ≤ daysBefore e.year := daysBefore_le year
    _ < e.dayNumber := by
        rw [dayNumber]
        omega

/-- The day after. -/
def next (d : Date) : Date :=
  if d.day < daysIn d.year d.month then ⟨d.year, d.month, d.day + 1⟩
  else if d.month < 12 then ⟨d.year, d.month + 1, 1⟩
  else ⟨d.year + 1, 1, 1⟩

/-- The next day is one day later. -/
theorem dayNumber_next (h : d.exists? = true) : d.next.dayNumber = d.dayNumber + 1 := by
  obtain ⟨-, ⟨first, twelve⟩, -, last⟩ := exists?_iff.1 h
  have through := daysThrough_eq d.year first
  simp only [next, dayNumber]
  -- Within a month, into the next month of the year, or into the next year.
  split
  · dsimp only
    omega
  next notBefore =>
    have day : d.day = daysIn d.year d.month := le_antisymm last (not_lt.1 notBefore)
    split
    · dsimp only
      rw [Nat.add_sub_cancel, day]
      omega
    · have month : d.month = 12 := by omega
      rw [month] at through day
      dsimp only
      rw [daysBefore_succ, month, day, Nat.sub_self, daysThrough]
      omega

/-- Days that exist are numbered in their order. -/
theorem compare_dayNumber (hd : d.exists? = true) (he : e.exists? = true) :
    compare d.dayNumber e.dayNumber = d.order e := by
  rw [order]
  -- The first of year, month and day that differs decides.
  rcases lt_trichotomy d.year e.year with less | year | greater
  · rw [compare_lt_iff_lt.2 less, compare_lt_iff_lt.2 (dayNumber_lt_of_year hd he less),
      Ordering.lt_then]
  · rw [compare_eq_iff_eq.2 year, Ordering.eq_then]
    rcases lt_trichotomy d.month e.month with less | month | greater
    · rw [compare_lt_iff_lt.2 less, compare_lt_iff_lt.2 (dayNumber_lt_of_month hd he year less),
        Ordering.lt_then]
    · rw [compare_eq_iff_eq.2 month, Ordering.eq_then, dayNumber, dayNumber, year, month,
        ← cmp_eq_compare,
        cmp_add_left, cmp_eq_compare, compare_natCast]
    · rw [compare_gt_iff_gt.2 greater,
        compare_gt_iff_gt.2 (dayNumber_lt_of_month he hd year.symm greater), Ordering.gt_then]
  · rw [compare_gt_iff_gt.2 greater, compare_gt_iff_gt.2 (dayNumber_lt_of_year he hd greater),
      Ordering.gt_then]

end

end Date

/-! ### Points of time -/

/-- A point of time: the second of universal time in which its minute begins,
and the nanoseconds since. -/
abbrev Instant := Int ×ₗ Nat

theorem compare_toLex (a b : Int) (x y : Nat) :
    compare (toLex (a, x) : Instant) (toLex (b, y)) = (compare a b).then (compare x y) := rfl

/-- The beginning of a day. -/
def Date.instant (d : Date) : Instant := toLex (d.dayNumber * 86400, 0)

theorem Date.compare_instant {d e : Date} (hd : d.exists? = true) (he : e.exists? = true) :
    compare d.instant e.instant = d.order e := by
  have zero : (0 : Int) ≤ 0 ∧ (0 : Int) < 86400 := by decide
  have days := compare_mul_add (a := d.dayNumber) (b := e.dayNumber) zero zero
  rw [Int.add_zero, Int.add_zero, compare_eq_iff_eq.2 (rfl : (0 : Int) = 0), Ordering.then_eq,
    compare_dayNumber hd he] at days
  rw [instant, instant, compare_toLex, days, compare_eq_iff_eq.2 (rfl : 0 = 0), Ordering.then_eq]

/-- The order of times of day: by the hours, then the minutes, then the
seconds, then the nanoseconds. -/
def TimeOfDay.order (t u : TimeOfDay) : Ordering :=
  (compare t.hour u.hour).then ((compare t.minute u.minute).then
    ((compare t.second u.second).then (compare t.nanosecond u.nanosecond)))

/-- The hour, the minute and the nanosecond exist. -/
structure TimeOfDay.Proper (t : TimeOfDay) : Prop where
  hour : t.hour ≤ 23
  minute : t.minute ≤ 59
  nanosecond : t.nanosecond < 1000000000

/-- When a moment is. -/
def Moment.instant (m : Moment) : Instant :=
  toLex (m.date.dayNumber * 86400 + (m.time.hour * 3600 + m.time.minute * 60 : Nat) - m.offset,
    m.time.second * 1000000000 + m.time.nanosecond)

namespace Moment

variable {m n : Moment}

/-- Moments with the same offset are in the order of their dates, then of their
times of day. -/
theorem compare_instant (hm : m.date.exists? = true) (hn : n.date.exists? = true)
    (properM : m.time.Proper) (properN : n.time.Proper) (offset : m.offset = n.offset) :
    compare m.instant n.instant = (m.date.order n.date).then (m.time.order n.time) := by
  obtain ⟨hourM, minuteM, nanosecondM⟩ := properM
  obtain ⟨hourN, minuteN, nanosecondN⟩ := properN
  -- Hours and minutes are digits of one number, and so are seconds and their fractions.
  have minutes : compare (m.time.hour * 3600 + m.time.minute * 60)
      (n.time.hour * 3600 + n.time.minute * 60) =
        (compare m.time.hour n.time.hour).then (compare m.time.minute n.time.minute) := by
    rw [compare_mul_add_nat (by omega) (by omega), ← Nat.add_zero (m.time.minute * 60),
      ← Nat.add_zero (n.time.minute * 60), compare_mul_add_nat (by omega) (by omega),
      compare_eq_iff_eq.2 (rfl : 0 = 0), Ordering.then_eq]
  have seconds := compare_mul_add_nat (a := m.time.second) (b := n.time.second) nanosecondM
    nanosecondN
  rw [instant, instant, compare_toLex, seconds, offset, sub_eq_add_neg, sub_eq_add_neg,
    ← cmp_eq_compare, cmp_add_right, cmp_eq_compare,
    compare_mul_add (by omega) (by omega), compare_natCast, minutes,
    Date.compare_dayNumber hm hn, TimeOfDay.order]
  simp only [Ordering.then_assoc]

end Moment

end EntityQuery
