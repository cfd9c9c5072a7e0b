/-
EntityQuery/Proofs/Overflow.lean

Which decimal numbers have no finite double.

The greatest finite double is `2^1024 - 2^971`, and the next number of the
same spacing would be `2^1024`.  A number is rounded to infinity exactly if it
reaches the middle between the two (`overflow`): there the tie goes to the
even significand, which is that of `2^1024`.
-/
import EntityQuery.Proofs.Preorder

namespace EntityQuery.Binary64

/-- The least number that is rounded to infinity, `2^1024 - 2^970`. -/
def overflow : Nat := (2 ^ 54 - 1) * 2 ^ 970

theorem overflow_pos : 0 < overflow := by decide +kernel

theorem pow_le_overflow : 2 ^ 1023 ≤ overflow := by decide +kernel

theorem overflow_le_pow : overflow ≤ 2 ^ 1024 := by decide +kernel

/-! ### The power of two below a ratio -/

section

variable {n d : Nat}

/-- A power of two is below a ratio, if both are scaled until the power is
whole. -/
theorem reaches_iff {e : Int} (scale : Nat) (whole : 0 ≤ e + scale) :
    reaches 2 e n d = true ↔ d * 2 ^ (e + scale).toNat ≤ n * 2 ^ scale := by
  simp only [reaches]
  split
  · next up =>
    obtain ⟨m, rfl⟩ := Int.eq_ofNat_of_zero_le up
    have sum : ((m : Int) + scale).toNat = m + scale := by omega
    rw [decide_eq_true_eq, sum, Int.toNat_natCast, Nat.pow_add, ← Nat.mul_assoc]
    exact (Nat.mul_le_mul_right_iff (Nat.two_pow_pos scale)).symm
  · next down =>
    obtain ⟨m, negated⟩ := Int.eq_ofNat_of_zero_le (a := -e) (by omega)
    have sum : (e + scale).toNat = scale - m := by omega
    have split : scale = m + (scale - m) := by omega
    rw [decide_eq_true_eq, sum, negated, Int.toNat_natCast]
    conv_rhs => rw [split, Nat.pow_add, ← Nat.mul_assoc]
    rw [Nat.add_sub_cancel_left]
    exact (Nat.mul_le_mul_right_iff (Nat.two_pow_pos _)).symm

/-- A ratio that reaches a power reaches the lower ones. -/
theorem reaches_anti {e e' : Int} (h : e ≤ e') (reached : reaches 2 e' n d = true) :
    reaches 2 e n d = true := by
  have whole : 0 ≤ e + (-e).toNat := by omega
  rw [reaches_iff (-e).toNat (by omega)] at reached
  rw [reaches_iff _ whole]
  exact (Nat.mul_le_mul_left d (Nat.pow_le_pow_right (by decide) (by omega))).trans reached

/-- The last power is below the ratio, and the next one is not. -/
theorem lastPower_spec (hn : n ≠ 0) (hd : d ≠ 0) :
    reaches 2 (lastPower 2 ((n.log2 : Int) - d.log2) n d) n d = true ∧
      reaches 2 (lastPower 2 ((n.log2 : Int) - d.log2) n d + 1) n d = false := by
  have lowN := Nat.log2_self_le hn
  have highN := Nat.lt_log2_self (n := n)
  have lowD := Nat.log2_self_le hd
  have highD := Nat.lt_log2_self (n := d)
  -- The estimate from the logarithms is off by one at most.
  have above : reaches 2 ((n.log2 : Int) - d.log2 + 1) n d = false := by
    rw [← Bool.not_eq_true, reaches_iff d.log2 (by omega), not_le]
    have power : ((n.log2 : Int) - d.log2 + 1 + d.log2).toNat = n.log2 + 1 := by omega
    rw [power]
    calc n * 2 ^ d.log2 < 2 ^ (n.log2 + 1) * 2 ^ d.log2 :=
          Nat.mul_lt_mul_of_pos_right highN (Nat.two_pow_pos _)
      _ ≤ 2 ^ (n.log2 + 1) * d := Nat.mul_le_mul_left _ lowD
      _ = d * 2 ^ (n.log2 + 1) := Nat.mul_comm _ _
  have below : reaches 2 ((n.log2 : Int) - d.log2 - 1) n d = true := by
    rw [reaches_iff (d.log2 + 1) (by omega)]
    have power : ((n.log2 : Int) - d.log2 - 1 + (d.log2 + 1 : Nat)).toNat = n.log2 := by omega
    rw [power]
    calc d * 2 ^ n.log2 ≤ 2 ^ (d.log2 + 1) * 2 ^ n.log2 := Nat.mul_le_mul_right _ highD.le
      _ ≤ 2 ^ (d.log2 + 1) * n := Nat.mul_le_mul_left _ lowN
      _ = n * 2 ^ (d.log2 + 1) := Nat.mul_comm _ _
  simp only [lastPower]
  split
  · next reached => exact ⟨reached, above⟩
  · next missed =>
    rw [Int.sub_add_cancel]
    exact ⟨below, Bool.not_eq_true _ ▸ missed⟩

/-! ### Ratios beyond the doubles -/

theorem isFinite_ofRank (negative : Bool) (rank : Nat) :
    (ofRank negative rank).isFinite = false ↔ infinityRank ≤ rank := by
  show decide (min rank infinityRank < infinityRank) = false ↔ _
  rw [decide_eq_false_iff_not]
  omega

/-- A quotient of at most 53 bits is rounded to at most `2^53`. -/
theorem roundHalfEven_le_of_lt {step : Nat} (h : n < step * 2 ^ 53) :
    roundHalfEven n step ≤ 2 * binade := by
  have quotient : n / step < 2 ^ 53 := Nat.div_lt_of_lt_mul h
  have above := roundHalfEven_le_succ n step
  have unit : 2 * binade = 2 ^ 53 := rfl
  omega

/-- In the last binade a ratio is rounded up to `2^1024` from the middle of
the last step on. -/
theorem roundHalfEven_last {step : Nat} (positive : 0 < step) (inside : n < step * 2 ^ 53) :
    2 * binade ≤ roundHalfEven n step ↔ (2 ^ 54 - 1) * step ≤ 2 * n := by
  have quotient : n / step < 2 ^ 53 := Nat.div_lt_of_lt_mul inside
  have whole := Nat.div_add_mod n step
  have rest := Nat.mod_lt n positive
  have unit : 2 * binade = 2 ^ 53 := rfl
  rcases Nat.lt_or_eq_of_le (Nat.le_sub_one_of_lt quotient) with less | last
  · have above := roundHalfEven_le_succ n step
    have short : step * (n / step + 1) ≤ step * (2 ^ 53 - 1) := Nat.mul_le_mul_left _ (by omega)
    rw [Nat.mul_add] at short
    refine iff_of_false (by omega) (by omega)
  · simp only [roundHalfEven, last]
    rw [last] at whole
    split <;> omega

/-- Below the last binade the rank of a ratio is below that of infinity. -/
theorem steps_le {top : Int} (missed : ∀ e, top + 1 ≤ e → ¬reaches 2 e n d = true)
    {unit : Int} (spacing : top - 52 ≤ unit) :
    (if 0 ≤ unit then roundHalfEven n (d * Nat.pow 2 unit.toNat)
      else roundHalfEven (n * Nat.pow 2 (-unit).toNat) d) ≤ 2 * binade := by
  -- Fifty-three binary digits above the unit nothing is reached.
  have far := missed (unit + 53) (by omega)
  split
  · next up =>
    rw [reaches_iff 0 (by omega), Nat.pow_zero, Nat.mul_one, not_le] at far
    have power : (unit + 53 + (0 : Nat)).toNat = unit.toNat + 53 := by omega
    rw [power, Nat.pow_add, ← Nat.mul_assoc] at far
    exact roundHalfEven_le_of_lt far
  · next down =>
    rw [reaches_iff (-unit).toNat (by omega), not_le] at far
    have power : (unit + 53 + (-unit).toNat).toNat = 53 := by omega
    rw [power] at far
    exact roundHalfEven_le_of_lt far

/-- A ratio is rounded to infinity exactly if it reaches `overflow`. -/
theorem isFinite_ofRatio (negative : Bool) (hn : n ≠ 0) (hd : d ≠ 0) :
    (ofRatio negative n d).isFinite = false ↔ overflow * d ≤ n := by
  obtain ⟨reached, next⟩ := lastPower_spec hn hd
  simp only [ofRatio, if_neg hn, isFinite_ofRank]
  generalize lastPower 2 ((n.log2 : Int) - d.log2) n d = top at reached next ⊢
  have missed : ∀ e, top + 1 ≤ e → ¬reaches 2 e n d = true := fun e h up => by
    rw [reaches_anti h up] at next
    cases next
  have atLeast : ∀ e : Nat, (e : Int) ≤ top → d * 2 ^ e ≤ n := fun e h => by
    have := (reaches_iff 0 (by omega)).1 (reaches_anti h reached)
    simpa using this
  have below : ∀ e : Nat, top + 1 ≤ e → n < d * 2 ^ e := fun e h => by
    have := mt (reaches_iff 0 (by omega)).2 (missed e h)
    simpa using this
  rcases lt_trichotomy top 1023 with small | rfl | large
  · -- Below the last binade.
    have steps := steps_le missed (le_max_left (top - 52) (-1074))
    have count : (max (top - 52) (-1074) + 1074).toNat ≤ 2044 := by omega
    have rank := Nat.mul_le_mul_right binade count
    have less : n < overflow * d := by
      calc n < d * 2 ^ 1023 := below 1023 (by omega)
        _ ≤ d * overflow := Nat.mul_le_mul_left d pow_le_overflow
        _ = overflow * d := Nat.mul_comm _ _
    refine iff_of_false (not_le.2 ?_) (not_le.2 less)
    refine Nat.lt_of_le_of_lt (Nat.add_le_add rank steps) ?_
    decide
  · -- In the last binade.  Its unit is a power that need not be worked out.
    have spacing : max ((1023 : Int) - 52) (-1074) = 971 := by decide
    have inside := below 1024 (by omega)
    obtain ⟨k, unit⟩ : ∃ k, (971 : Int).toNat = k := ⟨_, rfl⟩
    have value : 2 * overflow = (2 ^ 54 - 1) * 2 ^ k := by
      subst unit
      decide +kernel
    have power : (2 : Nat) ^ 1024 = 2 ^ k * 2 ^ 53 := by
      subst unit
      decide +kernel
    have middle : 2 * (overflow * d) = (2 ^ 54 - 1) * (d * 2 ^ k) := by
      rw [← Nat.mul_assoc, value, Nat.mul_assoc, Nat.mul_comm (2 ^ k) d]
    rw [power, ← Nat.mul_assoc] at inside
    have positive : 0 < d * 2 ^ k := Nat.pos_of_ne_zero fun zero => by
      rw [zero, Nat.zero_mul] at inside
      exact Nat.not_lt_zero n inside
    have rounded := roundHalfEven_last positive inside
    have count : ((971 : Int) + 1074).toNat = 2045 := rfl
    have infinite : infinityRank = 2045 * binade + 2 * binade := by decide
    rw [spacing, if_pos (by decide), unit, count, infinite, Nat.add_le_add_iff_left]
    refine rounded.trans ?_
    rw [← middle]
    exact Nat.mul_le_mul_left_iff (by decide)
  · -- Beyond it.
    have reachedHigh := atLeast top.toNat (by omega)
    have more : overflow * d ≤ n := by
      calc overflow * d = d * overflow := Nat.mul_comm _ _
        _ ≤ d * 2 ^ 1024 := Nat.mul_le_mul_left d overflow_le_pow
        _ ≤ n := atLeast 1024 (by omega)
    have spacing : (max (top - 52) (-1074)).toNat = top.toNat - 52 := by omega
    have split : top.toNat = top.toNat - 52 + 52 := by omega
    rw [split, Nat.pow_add, ← Nat.mul_assoc] at reachedHigh
    have positive : 0 < d * 2 ^ (top.toNat - 52) := Nat.mul_pos (by omega) (Nat.two_pow_pos _)
    have quotient := (Nat.le_div_iff_mul_le positive).2 (Nat.mul_comm _ _ ▸ reachedHigh)
    have steps := quotient.trans (div_le_roundHalfEven n (d * 2 ^ (top.toNat - 52)))
    have count : 2046 ≤ (max (top - 52) (-1074) + 1074).toNat := by omega
    have rank := Nat.mul_le_mul_right binade count
    rw [if_pos (by omega), spacing]
    refine iff_of_true ?_ more
    have infinite : infinityRank = 2046 * binade + 2 ^ 52 := by decide
    rw [infinite]
    exact Nat.add_le_add rank steps

/-- A decimal number is rounded to infinity exactly if it reaches `overflow`. -/
theorem isFinite_ofDecimal (negative : Bool) (digits : Nat) (exponent : Int) :
    (ofDecimal negative digits exponent).isFinite = false ↔
      overflow * 10 ^ (-exponent).toNat ≤ digits * 10 ^ exponent.toNat := by
  have power : ∀ k, 0 < Nat.pow 10 k := fun k => Nat.pow_pos (by decide)
  have zeroFinite : (zero negative).isFinite = true := rfl
  -- The cases of the conversion: zero, far too large, whole, far too small, and a proper fraction.
  simp only [ofDecimal]
  split
  · next zero =>
    have some := Nat.mul_pos overflow_pos (power (-exponent).toNat)
    rw [zeroFinite, zero, Nat.zero_mul]
    exact iff_of_false (by decide) (not_le.2 some)
  split
  · next large =>
    have whole : (-exponent).toNat = 0 := by omega
    rw [whole, Nat.pow_zero, Nat.mul_one]
    refine iff_of_true rfl ?_
    calc overflow ≤ 10 ^ 400 := by decide +kernel
      _ ≤ 10 ^ exponent.toNat := Nat.pow_le_pow_right (by decide) (by omega)
      _ ≤ digits * 10 ^ exponent.toNat := Nat.le_mul_of_pos_left _ (by omega)
  split
  · next up =>
    have whole : (-exponent).toNat = 0 := by omega
    rw [whole, Nat.pow_zero]
    exact isFinite_ofRatio negative (Nat.mul_pos (by omega) (power _)).ne' (by decide)
  split
  · next tiny =>
    have none : exponent.toNat = 0 := by omega
    rw [none, Nat.pow_zero, Nat.mul_one, zeroFinite]
    refine iff_of_false (by decide) (not_le.2 ?_)
    calc digits < 2 ^ (digits.log2 + 1) := Nat.lt_log2_self
      _ ≤ 10 ^ (digits.log2 + 1) := Nat.pow_le_pow_left (by decide) _
      _ ≤ 10 ^ (-exponent).toNat := Nat.pow_le_pow_right (by decide) (by omega)
      _ ≤ overflow * 10 ^ (-exponent).toNat := Nat.le_mul_of_pos_left _ overflow_pos
  · next down =>
    have none : exponent.toNat = 0 := by omega
    rw [none, Nat.pow_zero, Nat.mul_one]
    exact isFinite_ofRatio negative (by assumption) (power _).ne'

end

end EntityQuery.Binary64
