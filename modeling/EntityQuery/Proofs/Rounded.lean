/-
EntityQuery/Proofs/Rounded.lean

The order of integers in the store.

Two integers are compared as they are if both are of 64 bits with a sign, and
as doubles otherwise.  Rounding keeps their order, so the comparison is that
of the integers unless they are rounded to one double (`Merged`); then they
are taken for equal (`compareNumbers_ofInt`).

Among the integers from `-2^63` to `2^64 - 1` this needs one that is not less
than `2^63`.  The doubles there are 2048 apart, and a merged pair lies no
farther apart than that (`Merged.bounds`).
-/
import EntityQuery.Proofs.Preorder

namespace EntityQuery

/-! ### How far rounding goes -/

namespace Binary64

/-- Rounding moves a number by half a step at most. -/
theorem roundHalfEven_error (n : Nat) {d : Nat} (positive : 0 < d) :
    2 * (roundHalfEven n d * d) ≤ 2 * n + d ∧ 2 * n ≤ 2 * (roundHalfEven n d * d) + d := by
  have whole := Nat.div_add_mod n d
  have commuted := Nat.mul_comm d (n / d)
  have next : (n / d + 1) * d = n / d * d + d := Nat.succ_mul _ _
  have rest := Nat.mod_lt n positive
  simp only [roundHalfEven]
  split <;> omega

/-- The numbers of 64 bits from `2^63` on are rounded to multiples of 2048. -/
theorem rankOf_large {n : Nat} (low : 2 ^ 63 ≤ n) (high : n < 2 ^ 64) :
    rankOf n = 1085 * binade + roundHalfEven n 2048 := by
  have power : n.log2 = 63 := (Nat.log2_eq_iff (by omega)).2 ⟨low, high⟩
  have bounds := bits_bounds (n := n) (by omega)
  have rounded : bits n = roundHalfEven n 2048 := by simp [bits, power]
  rw [rankOf, if_neg (by omega), power, ← rounded]
  simp only [infinityRank, binade] at bounds ⊢
  omega

end Binary64

namespace Store

/-! ### Integers that are merged -/

/-- Two integers that are not told apart: not both are of 64 bits with a sign,
and they are rounded to one double. -/
def Merged (i j : Int) : Prop :=
  i ≠ j ∧ ¬(IntegerRange.int64.has i = true ∧ IntegerRange.int64.has j = true) ∧
    (Binary64.ofInt i).place = (Binary64.ofInt j).place

instance (i j : Int) : Decidable (Merged i j) := by
  unfold Merged
  infer_instance

theorem Merged.symm {i j : Int} (h : Merged i j) : Merged j i :=
  ⟨h.1.symm, fun both => h.2.1 both.symm, h.2.2.symm⟩

/-- The comparison of two integers is that of their values, except that merged
ones are equal. -/
theorem compareNumbers_ofInt (i j : Int) :
    compareNumbers (.int i) (.int j) = if Merged i j then .eq else compare i j := by
  by_cases both : IntegerRange.int64.has i = true ∧ IntegerRange.int64.has j = true
  · rw [if_neg fun merged => merged.2.1 both]
    exact compareNumbers_of_int (if_pos both.1) (if_pos both.2)
  have far : (JsonNumber.int i).toInt64? = none ∨ (JsonNumber.int j).toInt64? = none := by
    simp only [JsonNumber.toInt64?, ite_eq_right_iff, reduceCtorEq, imp_false]
    exact not_and_or.1 both
  rw [compareNumbers_of_far far]
  show compare (Binary64.ofInt i).place (Binary64.ofInt j).place = _
  -- Rounding to a float keeps the order, so that it can only make integers equal.
  rcases lt_trichotomy i j with less | rfl | greater
  · rcases (Binary64.place_ofInt_le less.le).lt_or_eq with apart | same
    · rw [if_neg fun merged => apart.ne merged.2.2, compare_lt_iff_lt.2 apart,
        compare_lt_iff_lt.2 less]
    · rw [if_pos ⟨less.ne, both, same⟩, compare_eq_iff_eq.2 same]
  · rw [if_neg fun merged => merged.1 rfl, compare_eq_iff_eq.2 rfl, compare_eq_iff_eq.2 rfl]
  · rcases (Binary64.place_ofInt_le greater.le).lt_or_eq with apart | same
    · rw [if_neg fun merged => apart.ne merged.2.2.symm, compare_gt_iff_gt.2 apart,
        compare_gt_iff_gt.2 greater]
    · rw [if_pos ⟨greater.ne', both, same.symm⟩, compare_eq_iff_eq.2 same.symm]

/-- Integers that are not merged compare by size. -/
theorem compareValues_ofInt {i j : Int} (apart : ¬Merged i j) :
    compareValues (.ofInt i) (.ofInt j) = some (compare i j) := by
  show some (compareNumbers (.int i) (.int j)) = _
  rw [compareNumbers_ofInt, if_neg apart]

/-! ### How near merged integers are -/

/-- The integers that the integer scalars take, and rows can store. -/
def Admitted (i : Int) : Prop := -2 ^ 63 ≤ i ∧ i < 2 ^ 64

theorem has_int64 {i : Int} (low : -2 ^ 63 ≤ i) (high : i < 2 ^ 63) :
    IntegerRange.int64.has i = true := by
  have within : -9223372036854775808 ≤ i ∧ i ≤ 9223372036854775807 := by omega
  exact decide_eq_true within

/-- Of two merged integers the greater is not less than `2^63`, and the
smaller at most 2048 less. -/
theorem Merged.near {i j : Int} (hi : Admitted i) (hj : Admitted j) (h : Merged i j)
    (less : i < j) : 2 ^ 63 ≤ j ∧ j ≤ i + 2048 := by
  obtain ⟨-, notBoth, same⟩ := h
  have large : 2 ^ 63 ≤ j := by
    by_contra small
    exact notBoth ⟨has_int64 hi.1 (by omega), has_int64 hj.1 (by omega)⟩
  refine ⟨large, ?_⟩
  obtain ⟨n, rfl⟩ := Int.eq_ofNat_of_zero_le (a := j) (by omega)
  have upper := hj.2
  have roundedJ := Binary64.rankOf_large (n := n) (by omega) (by omega)
  have errorJ := Binary64.roundHalfEven_error n (d := 2048) (by decide)
  rcases le_or_gt (2 ^ 63) i with large' | small
  · -- Both are rounded to the same multiple of 2048.
    obtain ⟨m, rfl⟩ := Int.eq_ofNat_of_zero_le (a := i) (by omega)
    have roundedI := Binary64.rankOf_large (n := m) (by omega) (by omega)
    have errorI := Binary64.roundHalfEven_error m (d := 2048) (by decide)
    rw [Binary64.place_ofNat, Binary64.place_ofNat, roundedI, roundedJ] at same
    omega
  · -- The smaller one is rounded up to `2^63`, and the greater one down to it.
    have below := Binary64.place_ofInt_le small.le
    have above := Binary64.place_ofInt_le large
    have boundary : (Binary64.ofInt (2 ^ 63)).place = (1085 * Binary64.binade + 2 ^ 52 : Nat) := by
      decide
    have close : 2 ^ 63 - 1024 ≤ i := by
      by_contra far
      have lower := Binary64.place_ofInt_le (i := i) (j := 2 ^ 63 - 1024) (by omega)
      have step : (Binary64.ofInt (2 ^ 63 - 1024)).place < (Binary64.ofInt (2 ^ 63)).place := by
        decide
      omega
    rw [Binary64.place_ofNat, roundedJ] at same above
    rw [boundary] at below above
    omega

/-- Merged integers of the admitted range are large and near each other. -/
theorem Merged.bounds {i j : Int} (hi : Admitted i) (hj : Admitted j) (h : Merged i j) :
    2 ^ 63 ≤ max i j ∧ (i - j).natAbs ≤ 2048 := by
  rcases lt_or_gt_of_ne h.1 with less | greater
  · obtain ⟨large, close⟩ := h.near hi hj less
    exact ⟨le_max_of_le_right large, by omega⟩
  · obtain ⟨large, close⟩ := h.symm.near hj hi greater
    exact ⟨le_max_of_le_left large, by omega⟩

end Store

end EntityQuery
