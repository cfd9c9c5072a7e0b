/-
EntityQuery/Proofs/Magnitude.lean

The exact values of numbers.

Every finite double is a whole multiple of the least magnitude `2^-1074`, and
so is every integer.  Counted in this unit the value of a number is an integer
(`JsonNumber.units`), and nothing has to be rounded to speak of it.

Ranks count the magnitudes in increasing order, so doubles are ordered as
their values are (`Binary64.order_eq_compare`).  Two numbers of which neither
is rounded are compared by value (`Store.compareNumbers_eq_compare`).
-/
import EntityQuery.Store.Compare
import Mathlib.Algebra.Order.Ring.Int
import Mathlib.Order.WellFounded

namespace EntityQuery

namespace Binary64

/-! ### Magnitudes -/

/-- The magnitude of a finite number, counted in `2^-1074`. -/
def magnitude (x : Binary64) : Nat := x.significand * 2 ^ (x.exponent + 1074).toNat

/-- The value of a finite number, counted in `2^-1074`. -/
def units (x : Binary64) : Int := if x.negative then -(x.magnitude : Int) else x.magnitude

/-- The magnitude of a rank: the first `binade` ranks count one by one, the
next ones too, and from there on the steps double with every binade. -/
def magnitudeAt (rank : Nat) : Nat :=
  if rank < binade then rank else (binade + rank % binade) * 2 ^ (rank / binade - 1)

theorem magnitude_eq (x : Binary64) : x.magnitude = magnitudeAt x.rank := by
  simp only [magnitude, magnitudeAt, significand, exponent]
  split
  · exact Nat.mul_one _
  · have : ((x.rank / binade : Nat) - 1075 + 1074 : Int).toNat = x.rank / binade - 1 := by omega
    rw [this]

theorem magnitudeAt_lt_succ (r : Nat) : magnitudeAt r < magnitudeAt (r + 1) := by
  have count : binade = 4503599627370496 := rfl
  simp only [magnitudeAt]
  by_cases small : r + 1 < binade
  · rw [if_pos small, if_pos (by omega)]
    omega
  by_cases first : r < binade
  · -- The first rank with a significand of all 53 bits.
    obtain rfl : r = binade - 1 := by omega
    decide
  rw [if_neg first, if_neg small]
  by_cases inside : r % binade + 1 < binade
  · have next : (r + 1) % binade = r % binade + 1 ∧ (r + 1) / binade = r / binade := by
      rw [count] at inside ⊢
      omega
    rw [next.1, next.2]
    exact Nat.mul_lt_mul_of_pos_right (by omega) (Nat.two_pow_pos _)
  · -- The last rank of a binade, before a step twice as long.
    have next : (r + 1) % binade = 0 ∧ (r + 1) / binade - 1 = (r / binade - 1) + 1 ∧
        r % binade = binade - 1 := by
      rw [count] at inside first ⊢
      omega
    rw [next.1, next.2.1, next.2.2, Nat.pow_succ, ← Nat.mul_assoc, Nat.mul_right_comm]
    exact Nat.mul_lt_mul_of_pos_right (by decide) (Nat.two_pow_pos _)

/-- A higher rank is a greater magnitude. -/
theorem strictMono_magnitudeAt : StrictMono magnitudeAt :=
  strictMono_nat_of_lt_succ magnitudeAt_lt_succ

/-! ### Order -/

/-- Numbers are in the order of their places. -/
theorem units_lt_iff {x y : Binary64} : x.units < y.units ↔ x.place < y.place := by
  have zero : magnitudeAt 0 = 0 := rfl
  have atLeast := fun r => strictMono_magnitudeAt.le_apply (x := r)
  have below : ∀ r t, magnitudeAt r < magnitudeAt t ↔ r < t := fun r t =>
    strictMono_magnitudeAt.lt_iff_lt
  have hx := below 0 x.rank
  have hy := below 0 y.rank
  have hxy := below x.rank y.rank
  have hyx := below y.rank x.rank
  simp only [units, place]
  rw [magnitude_eq, magnitude_eq]
  cases x.negative <;> cases y.negative <;> simp only [if_true, if_false, Bool.false_eq_true] <;>
    omega

/-- Doubles are ordered as their values are. -/
theorem order_eq_compare (x y : Binary64) : x.order y = compare x.units y.units := by
  simp only [order]
  rcases lt_trichotomy x.units y.units with h | h | h
  · rw [compare_lt_iff_lt.2 h, compare_lt_iff_lt.2 (units_lt_iff.1 h)]
  · have same : x.place = y.place := by
      have hxy := units_lt_iff (x := x) (y := y)
      have hyx := units_lt_iff (x := y) (y := x)
      omega
    rw [compare_eq_iff_eq.2 h, compare_eq_iff_eq.2 same]
  · rw [compare_gt_iff_gt.2 h, compare_gt_iff_gt.2 (units_lt_iff.1 h)]

end Binary64

/-! ### Numbers of documents -/

namespace JsonNumber

/-- The value of a number, counted in `2^-1074`. -/
def units : JsonNumber → Int
  | .int i => i * 2 ^ 1074
  | .float x _ => x.units

/-- Neither of the numbers has to be rounded to compare them: both are
integers of 64 bits with a sign, or both are doubles in value. -/
def Comparable (m n : JsonNumber) : Prop :=
  (m.toInt64?.isSome ∧ n.toInt64?.isSome) ∨
    (m.toBinary64.units = m.units ∧ n.toBinary64.units = n.units)

instance (m n : JsonNumber) : Decidable (m.Comparable n) := by
  unfold Comparable
  infer_instance

/-- An integer of 64 bits is counted in the least unit that there is. -/
theorem units_of_toInt64? {n : JsonNumber} {i : Int} (h : n.toInt64? = some i) :
    n.units = i * 2 ^ 1074 := by
  cases n with
  | float x finite => cases h
  | int j =>
    simp only [toInt64?] at h
    split at h
    · cases h
      rfl
    · cases h

end JsonNumber

theorem compare_mul_two_pow (i j : Int) (k : Nat) :
    compare (i * 2 ^ k) (j * 2 ^ k) = compare i j := by
  have positive : (0 : Int) < 2 ^ k := Int.pow_pos (by decide)
  rcases lt_trichotomy i j with h | h | h
  · rw [compare_lt_iff_lt.2 h, compare_lt_iff_lt.2 (Int.mul_lt_mul_of_pos_right h positive)]
  · rw [h, compare_eq_iff_eq.2 rfl, compare_eq_iff_eq.2 rfl]
  · rw [compare_gt_iff_gt.2 h, compare_gt_iff_gt.2 (Int.mul_lt_mul_of_pos_right h positive)]

/-- Numbers that are not rounded are compared by value. -/
theorem Store.compareNumbers_eq_compare {m n : JsonNumber} (h : m.Comparable n) :
    compareNumbers m n = compare m.units n.units := by
  simp only [compareNumbers]
  split
  · next i j hi hj =>
    rw [JsonNumber.units_of_toInt64? hi, JsonNumber.units_of_toInt64? hj, compare_mul_two_pow]
  · next far =>
    rcases h with ⟨hm, hn⟩ | ⟨hm, hn⟩
    · obtain ⟨i, hi⟩ := Option.isSome_iff_exists.1 hm
      obtain ⟨j, hj⟩ := Option.isSome_iff_exists.1 hn
      exact absurd hj (far i j hi)
    · rw [Binary64.order_eq_compare, hm, hn]

end EntityQuery
