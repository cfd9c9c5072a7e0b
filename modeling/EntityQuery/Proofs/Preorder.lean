/-
EntityQuery/Proofs/Preorder.lean

The order of stored values in a sort as a preorder.

Two values always compare in opposite ways from the two sides
(`Store.sortOrder_swap`).  Transitivity takes more.  Values of different
types have no order and count as equal, and an integer beside a number that
is no integer of 64 bits is rounded to a double before it is compared, while
two integers are not: of two integers that are rounded to one double, both
are equal to that double and still one is less than the other.

Rounding keeps the order of integers (`Binary64.place_ofInt_le`), so this is
the only way in which numbers fail.
-/
import EntityQuery.Proofs.Magnitude
import Mathlib.Data.String.Basic

namespace EntityQuery

/-! ### Rounding -/

namespace Binary64

/-- Rounding keeps the order. -/
theorem roundHalfEven_le {m n : Nat} (d : Nat) (h : m ≤ n) :
    roundHalfEven m d ≤ roundHalfEven n d := by
  have quotients : m / d ≤ n / d := Nat.div_le_div_right h
  have whole := Nat.div_add_mod m d
  have wholeN := Nat.div_add_mod n d
  simp only [roundHalfEven]
  rcases Nat.lt_or_eq_of_le quotients with less | same
  · split <;> split <;> omega
  · rw [same] at whole ⊢
    -- In one step the remainders are in the order of the numbers.
    have rest : m % d ≤ n % d := by omega
    split <;> split <;> omega

theorem roundHalfEven_one (n : Nat) : roundHalfEven n 1 = n := by
  simp [roundHalfEven, Nat.mod_one]

/-- Rounding does not go below the whole part. -/
theorem div_le_roundHalfEven (n d : Nat) : n / d ≤ roundHalfEven n d := by
  simp only [roundHalfEven]
  split <;> omega

/-- It does not go above the next whole number. -/
theorem roundHalfEven_le_succ (n d : Nat) : roundHalfEven n d ≤ n / d + 1 := by
  simp only [roundHalfEven]
  split <;> omega

/-- The significand of a natural number that is not zero, rounded to 53
bits. -/
def bits (n : Nat) : Nat :=
  if n.log2 ≤ 52 then n * 2 ^ (52 - n.log2) else roundHalfEven n (2 ^ (n.log2 - 52))

/-- A number that is not zero has the bits of a binade. -/
theorem bits_bounds {n : Nat} (positive : n ≠ 0) : binade ≤ bits n ∧ bits n ≤ 2 * binade := by
  have low := Nat.log2_self_le positive
  have high := Nat.lt_log2_self (n := n)
  have unit : binade = 2 ^ 52 := rfl
  simp only [bits]
  -- A small number is shifted up to the binade, a large one divided down to it and rounded.
  split
  · next small =>
    have split52 : (2 : Nat) ^ 52 = 2 ^ n.log2 * 2 ^ (52 - n.log2) := by
      rw [← Nat.pow_add]
      congr 1
      omega
    have lower := Nat.mul_le_mul_right (2 ^ (52 - n.log2)) low
    have upper := Nat.mul_le_mul_right (2 ^ (52 - n.log2)) high.le
    rw [Nat.pow_succ, Nat.mul_right_comm, ← split52] at upper
    rw [← split52] at lower
    omega
  · next large =>
    have shift : (2 : Nat) ^ n.log2 = 2 ^ 52 * 2 ^ (n.log2 - 52) := by
      rw [← Nat.pow_add]
      congr 1
      omega
    have step : 0 < 2 ^ (n.log2 - 52) := Nat.two_pow_pos _
    have lower : 2 ^ 52 ≤ n / 2 ^ (n.log2 - 52) := by
      rw [Nat.le_div_iff_mul_le step, ← shift]
      exact low
    have upper : n / 2 ^ (n.log2 - 52) < 2 * 2 ^ 52 := by
      rw [Nat.div_lt_iff_lt_mul step, Nat.mul_assoc, ← shift, Nat.mul_comm, ← Nat.pow_succ]
      exact high
    have below := div_le_roundHalfEven n (2 ^ (n.log2 - 52))
    have above := roundHalfEven_le_succ n (2 ^ (n.log2 - 52))
    omega

/-- Within a power of two bits keep the order. -/
theorem bits_le {m n : Nat} (same : m.log2 = n.log2) (h : m ≤ n) : bits m ≤ bits n := by
  simp only [bits, same]
  split
  · exact Nat.mul_le_mul_right _ h
  · exact roundHalfEven_le _ h

/-- The rank of a natural number. -/
def rankOf (n : Nat) : Nat :=
  if n = 0 then 0 else min ((n.log2 + 1022) * binade + bits n) infinityRank

/-- A greater number does not have a lower rank. -/
theorem rankOf_le {m n : Nat} (h : m ≤ n) : rankOf m ≤ rankOf n := by
  simp only [rankOf]
  by_cases positive : m = 0
  · rw [if_pos positive]
    exact Nat.zero_le _
  rw [if_neg positive, if_neg (by omega)]
  have powers : m.log2 ≤ n.log2 := by
    rw [Nat.le_log2 (by omega)]
    exact (Nat.log2_self_le positive).trans h
  have inside := bits_bounds positive
  have insideN := bits_bounds (n := n) (by omega)
  have unit : binade = 4503599627370496 := rfl
  -- A greater power of two starts a binade above; within a power the bits decide.
  rcases Nat.lt_or_eq_of_le powers with less | same
  · rw [unit] at inside insideN ⊢
    omega
  · have := bits_le same h
    rw [same]
    omega

/-- The last power of two within a number is its logarithm. -/
theorem lastPower_log2 {n : Nat} (positive : n ≠ 0) :
    lastPower 2 ((n.log2 : Int) - Nat.log2 1) n 1 = n.log2 := by
  have one : Nat.log2 1 = 0 := by decide
  have reached : reaches 2 ((n.log2 : Int) - Nat.log2 1) n 1 = true := by
    have : 2 ^ n.log2 ≤ n := Nat.log2_self_le positive
    simpa [reaches, one] using this
  rw [lastPower, if_pos reached, one]
  exact Int.sub_zero _

theorem ofRatio_one (negative : Bool) (n : Nat) :
    (ofRatio negative n 1).rank = rankOf n ∧
      (n ≠ 0 → (ofRatio negative n 1).negative = negative) := by
  rcases eq_or_ne n 0 with rfl | positive
  · exact ⟨rfl, fun h => absurd rfl h⟩
  have unit : max ((n.log2 : Int) - 52) (-1074) = n.log2 - 52 := by omega
  have count : ((n.log2 : Int) - 52 + 1074).toNat = n.log2 + 1022 := by omega
  simp only [ofRatio, rankOf, if_neg positive, lastPower_log2 positive, ofRank, implies_true,
    and_true, unit, count]
  congr 2
  by_cases small : n.log2 ≤ 52
  · by_cases exact52 : n.log2 = 52
    · simp [bits, exact52, roundHalfEven_one]
    · rw [if_neg (by omega), roundHalfEven_one, bits, if_pos small]
      congr 2
      omega
  · have back : ((n.log2 : Int) - 52).toNat = n.log2 - 52 := by omega
    rw [if_pos (by omega), Nat.one_mul, back, bits, if_neg small]
    rfl

theorem place_ofNat (n : Nat) : (ofInt n).place = rankOf n := by
  have sign : decide ((n : Int) < 0) = false := by simp
  have parts := ofRatio_one false n
  rw [ofInt, sign, Int.natAbs_natCast, place, parts.1]
  rcases eq_or_ne n 0 with rfl | positive
  · rfl
  · rw [parts.2 positive]
    rfl

/-- A negated natural number stands as far below zero as its rank. -/
theorem place_neg_ofNat (n : Nat) : (ofInt (-n)).place = -(rankOf n : Int) := by
  rcases eq_or_ne n 0 with rfl | positive
  · rfl
  have sign : decide (-(n : Int) < 0) = true := by
    simp only [decide_eq_true_eq]
    omega
  have parts := ofRatio_one true n
  rw [ofInt, sign, Int.natAbs_neg, Int.natAbs_natCast, place, parts.1, parts.2 positive]
  rfl

/-- Rounding keeps the order of integers. -/
theorem place_ofInt_le {i j : Int} (h : i ≤ j) : (ofInt i).place ≤ (ofInt j).place := by
  obtain ⟨m, rfl | rfl⟩ := i.eq_nat_or_neg <;> obtain ⟨n, rfl | rfl⟩ := j.eq_nat_or_neg <;>
    simp only [place_ofNat, place_neg_ofNat]
  · have := rankOf_le (m := m) (n := n) (by omega)
    omega
  · -- A natural number that is at most a negated one: both are zero.
    obtain rfl : m = 0 := by omega
    obtain rfl : n = 0 := by omega
    decide
  · omega
  · have := rankOf_le (m := n) (n := m) (by omega)
    omega

end Binary64

/-! ### Numbers -/

namespace Store

theorem compareNumbers_of_int {m n : JsonNumber} {i j : Int} (hm : m.toInt64? = some i)
    (hn : n.toInt64? = some j) : compareNumbers m n = compare i j := by
  rw [compareNumbers, hm, hn]

/-- Unless both are integers of 64 bits, numbers compare by their places. -/
theorem compareNumbers_of_far {m n : JsonNumber} (h : m.toInt64? = none ∨ n.toInt64? = none) :
    compareNumbers m n = compare m.toBinary64.place n.toBinary64.place := by
  rw [compareNumbers]
  split
  · next i j hm hn =>
    rw [hm, hn] at h
    rcases h with h | h <;> cases h
  · rfl

/-- Numbers compare the other way round when they change sides. -/
theorem compareNumbers_swap (m n : JsonNumber) :
    compareNumbers n m = (compareNumbers m n).swap := by
  cases hm : m.toInt64? with
  | none =>
    rw [compareNumbers_of_far (.inl hm), compareNumbers_of_far (.inr hm)]
    exact Std.OrientedOrd.eq_swap
  | some i =>
    cases hn : n.toInt64? with
    | none =>
      rw [compareNumbers_of_far (.inl hn), compareNumbers_of_far (.inr hn)]
      exact Std.OrientedOrd.eq_swap
    | some j =>
      rw [compareNumbers_of_int hm hn, compareNumbers_of_int hn hm]
      exact Std.OrientedOrd.eq_swap

end Store

/-- An integer of 64 bits stands where the nearest float does. -/
theorem JsonNumber.place_of_toInt64? {n : JsonNumber} {i : Int} (h : n.toInt64? = some i) :
    n.toBinary64.place = (Binary64.ofInt i).place := by
  cases n with
  | float x finite => cases h
  | int j =>
    simp only [toInt64?] at h
    split at h
    · cases h
      rfl
    · cases h

namespace Store

/-- What is not greater is not greater after rounding. -/
theorem place_le_of_compareNumbers {m n : JsonNumber} (h : compareNumbers m n ≠ .gt) :
    m.toBinary64.place ≤ n.toBinary64.place := by
  cases hm : m.toInt64? with
  | none =>
    rw [compareNumbers_of_far (.inl hm)] at h
    exact not_lt.1 fun less => h (compare_gt_iff_gt.2 less)
  | some i =>
    cases hn : n.toInt64? with
    | none =>
      rw [compareNumbers_of_far (.inr hn)] at h
      exact not_lt.1 fun less => h (compare_gt_iff_gt.2 less)
    | some j =>
      rw [compareNumbers_of_int hm hn] at h
      rw [JsonNumber.place_of_toInt64? hm, JsonNumber.place_of_toInt64? hn]
      exact Binary64.place_ofInt_le (not_lt.1 fun less => h (compare_gt_iff_gt.2 less))

/-- Two integers of 64 bits, the first the greater, that are rounded to the
value of a number between them that is no such integer. -/
def Blurred (m n k : JsonNumber) : Prop :=
  ∃ i j, m.toInt64? = some i ∧ k.toInt64? = some j ∧ j < i ∧ n.toInt64? = none ∧
    m.toBinary64.place = n.toBinary64.place ∧ k.toBinary64.place = n.toBinary64.place

/-- Three numbers break transitivity exactly if they are blurred. -/
theorem compareNumbers_trans_iff (m n k : JsonNumber) :
    (compareNumbers m n ≠ .gt → compareNumbers n k ≠ .gt → compareNumbers m k ≠ .gt) ↔
      ¬Blurred m n k := by
  constructor
  · rintro transitive ⟨i, j, hm, hk, less, hn, low, high⟩
    refine transitive ?_ ?_ ?_
    · rw [compareNumbers_of_far (.inr hn), low]
      simp
    · rw [compareNumbers_of_far (.inl hn), high]
      simp
    · rw [compareNumbers_of_int hm hk]
      exact compare_gt_iff_gt.2 less
  · intro sharp first second greater
    have low := place_le_of_compareNumbers first
    have high := place_le_of_compareNumbers second
    cases hm : m.toInt64? with
    | none =>
      rw [compareNumbers_of_far (.inl hm), compare_gt_iff_gt] at greater
      omega
    | some i =>
      cases hk : k.toInt64? with
      | none =>
        rw [compareNumbers_of_far (.inr hk), compare_gt_iff_gt] at greater
        omega
      | some j =>
        rw [compareNumbers_of_int hm hk, compare_gt_iff_gt] at greater
        cases hn : n.toInt64? with
        | none =>
          -- The two integers are in the opposite order, so all three round alike.
          have back : k.toBinary64.place ≤ m.toBinary64.place := by
            rw [JsonNumber.place_of_toInt64? hm, JsonNumber.place_of_toInt64? hk]
            exact Binary64.place_ofInt_le greater.le
          exact sharp ⟨i, j, hm, hk, greater, hn, by omega, by omega⟩
        | some l =>
          rw [compareNumbers_of_int hm hn, ne_eq, compare_gt_iff_gt] at first
          rw [compareNumbers_of_int hn hk, ne_eq, compare_gt_iff_gt] at second
          omega

/-! ### Values -/

/-- A number, or the number that stands for a truth value. -/
def quantity? : Json → Option JsonNumber
  | .bool b => some (.int (flagValue b))
  | .number n => some n
  | _ => none

/-- A list or an object. -/
def isContainer : Json → Bool
  | .array _ => true
  | .object _ => true
  | _ => false

/-- Two values that have their places in one sort: a null has one beside
anything, containers share one, and otherwise the values have an order. -/
def Ranked (a b : Json) : Prop :=
  a.isNull = true ∨ b.isNull = true ∨ (isContainer a = true ∧ isContainer b = true) ∨
    (compareValues a b).isSome = true

/-- A truth value stands for an integer of 64 bits. -/
theorem toInt64?_flag (b : Bool) :
    (JsonNumber.int (flagValue b)).toInt64? = some (flagValue b) := by
  cases b <;> rfl

/-- Truth values compare as the integers they stand for. -/
theorem compareValues_of_quantity {a b : Json} {m n : JsonNumber} (ha : quantity? a = some m)
    (hb : quantity? b = some n) (h : (compareValues a b).isSome = true) :
    compareValues a b = some (compareNumbers m n) := by
  cases a <;> cases ha <;> cases b <;> cases hb
  · rw [compareNumbers_of_int (toInt64?_flag _) (toInt64?_flag _)]
    rfl
  · next b =>
    cases hn : n.toInt64? with
    | none => simp [compareValues, hn] at h
    | some i => simp [compareValues, hn, compareNumbers_of_int (toInt64?_flag b) hn]
  · next b =>
    cases hm : m.toInt64? with
    | none => simp [compareValues, hm] at h
    | some i => simp [compareValues, hm, compareNumbers_of_int hm (toInt64?_flag b)]
  · rfl

theorem sortOrder_swap (a b : Json) : sortOrder b a = (sortOrder a b).swap := by
  have flags : ∀ i j : Int, compare j i = (compare i j).swap := fun i j => Std.OrientedOrd.eq_swap
  have strings : ∀ s t : String, compare t s = (compare s t).swap := fun s t =>
    Std.OrientedOrd.eq_swap
  -- Values of different types, and containers, are equal from both sides.
  have tie : ∀ same : Bool, (if same = true then some Ordering.eq else none).getD .eq = .eq := by
    intro same
    cases same <;> rfl
  cases a <;> cases b <;> simp only [sortOrder, Json.isNull, compareValues, tie, Ordering.swap,
    Option.getD_some]
  case bool.bool => exact flags _ _
  case string.string => exact strings _ _
  case number.number m n => exact compareNumbers_swap m n
  case bool.number b n =>
    cases n.toInt64? with
    | none => rfl
    | some i => exact flags _ _
  case number.bool n b =>
    cases n.toInt64? with
    | none => rfl
    | some i => exact flags _ _

/-- What two values are that have an order and are not null. -/
theorem Ranked.shape {a b : Json} (h : Ranked a b) (ha : a.isNull = false) (hb : b.isNull = false) :
    (isContainer a = true ∧ isContainer b = true ∧ sortOrder a b = .eq) ∨
      (∃ s t, a = .string s ∧ b = .string t ∧ sortOrder a b = compare s t) ∨
      ∃ m n, quantity? a = some m ∧ quantity? b = some n ∧ sortOrder a b = compareNumbers m n := by
  have order : sortOrder a b = (compareValues a b).getD .eq := by rw [sortOrder, ha, hb]
  -- Lists and objects have no order among themselves, and count as equal.
  have containers (ca : isContainer a = true) (cb : isContainer b = true) :
      (compareValues a b).getD .eq = .eq := by
    cases a <;> cases ca <;> cases b <;> cases cb <;> simp only [compareValues] <;> split <;> rfl
  rw [order]
  rcases h with h | h | ⟨ca, cb⟩ | h
  · rw [ha] at h
    cases h
  · rw [hb] at h
    cases h
  · exact .inl ⟨ca, cb, containers ca cb⟩
  · cases hqa : quantity? a <;> cases hqb : quantity? b
    case some.some m n =>
      refine .inr (.inr ⟨m, n, rfl, rfl, ?_⟩)
      rw [compareValues_of_quantity hqa hqb h]
      rfl
    all_goals cases a <;> cases hqa <;> cases ha <;> cases b <;> cases hqb <;> cases hb
    -- Values without a quantity are ranked only as containers or as strings.
    all_goals first
      | exact absurd h (by decide)
      | exact .inl ⟨rfl, rfl, containers rfl rfl⟩
      | exact .inr (.inl ⟨_, _, rfl, rfl, rfl⟩)
      | cases h

/-- A null among three values does not harm transitivity. -/
theorem sortOrder_trans_of_null {a b c : Json}
    (h : a.isNull = true ∨ b.isNull = true ∨ c.isNull = true) (first : sortOrder a b ≠ .gt)
    (second : sortOrder b c ≠ .gt) : sortOrder a c ≠ .gt := by
  have last {x y : Json} (hx : x.isNull = true) (le : sortOrder x y ≠ .gt) : y.isNull = true := by
    cases hy : y.isNull
    · simp [sortOrder, hx, hy] at le
    · rfl
  have hc : c.isNull = true := by
    rcases h with ha | hb | hc
    · exact last (last ha first) second
    · exact last hb second
    · exact hc
  cases ha : a.isNull <;> simp [sortOrder, ha, hc]

theorem quantity?_of_container {a : Json} (h : isContainer a = true) : quantity? a = none := by
  cases a <;> first | rfl | cases h

theorem quantity?_of_null {a : Json} (h : a.isNull = true) : quantity? a = none := by
  rw [Json.isNull_iff.1 h]
  rfl

theorem compare_string_trans {s t u : String} (first : compare s t ≠ .gt)
    (second : compare t u ≠ .gt) : compare s u ≠ .gt := by
  rw [ne_eq, compare_gt_iff_gt, not_lt] at *
  exact first.trans second

/-- Three values of one sort break transitivity exactly if they are two
integers with a number between them to whose value both are rounded. -/
theorem sortOrder_trans_iff {a b c : Json} (hab : Ranked a b) (hbc : Ranked b c)
    (hac : Ranked a c) :
    (sortOrder a b ≠ .gt → sortOrder b c ≠ .gt → sortOrder a c ≠ .gt) ↔
      ¬∃ m n k, quantity? a = some m ∧ quantity? b = some n ∧ quantity? c = some k ∧
        Blurred m n k := by
  by_cases null : a.isNull = true ∨ b.isNull = true ∨ c.isNull = true
  · refine iff_of_true (sortOrder_trans_of_null null) ?_
    rintro ⟨m, n, k, hm, hn, hk, -⟩
    rcases null with h | h | h <;> rw [quantity?_of_null h] at * <;> contradiction
  simp only [not_or, Bool.not_eq_true] at null
  obtain ⟨na, nb, nc⟩ := null
  rcases hac.shape na nc with ⟨ca, -, tie⟩ | ⟨s, u, rfl, rfl, texts⟩ | ⟨m, k, hm, hk, numbers⟩
  · refine iff_of_true (fun _ _ => by rw [tie]; decide) ?_
    rintro ⟨m, n, k, hm, -⟩
    rw [quantity?_of_container ca] at hm
    cases hm
  · -- Beside a string only strings have an order.
    refine iff_of_true (fun first second => ?_) (by rintro ⟨m, n, k, hm, -⟩; cases hm)
    rcases hab.shape na nb with ⟨ca, -⟩ | ⟨s', t, hs, rfl, left⟩ | ⟨m, n, hm, -⟩
    · cases ca
    · rcases hbc.shape nb nc with ⟨cb, -⟩ | ⟨t', u', ht, hu, right⟩ | ⟨m, n, hm, -⟩
      · cases cb
      · cases hs
        cases ht
        cases hu
        rw [left] at first
        rw [right] at second
        rw [texts]
        exact compare_string_trans first second
      · cases hm
    · cases hm
  · rcases hab.shape na nb with ⟨ca, -⟩ | ⟨s, t, rfl, -⟩ | ⟨m', n, hm', hn, left⟩
    · rw [quantity?_of_container ca] at hm
      cases hm
    · cases hm
    · rcases hbc.shape nb nc with ⟨cb, -⟩ | ⟨s, t, rfl, -⟩ | ⟨n', k', hn', hk', right⟩
      · rw [quantity?_of_container cb] at hn
        cases hn
      · cases hn
      · rw [hm] at hm' ⊢
        rw [hn] at hn' ⊢
        rw [hk] at hk' ⊢
        cases hm'
        cases hn'
        cases hk'
        rw [left, right, numbers, compareNumbers_trans_iff]
        simp

/-- **The order of a sort as a preorder.**  Two values compare in opposite
ways from the two sides, and any three values that have places in one sort
keep transitivity exactly if they are not two integers with a number between
them to whose value both are rounded. -/
theorem sortOrder_preorder (a b c : Json) :
    sortOrder b a = (sortOrder a b).swap ∧
      (Ranked a b → Ranked b c → Ranked a c →
        ((sortOrder a b ≠ .gt → sortOrder b c ≠ .gt → sortOrder a c ≠ .gt) ↔
          ¬∃ m n k, quantity? a = some m ∧ quantity? b = some n ∧ quantity? c = some k ∧
            Blurred m n k)) :=
  ⟨sortOrder_swap a b, sortOrder_trans_iff⟩

theorem sortOrder_preorder_halves :
    let one := Json.ofInt 1
    let middle := Json.number (.float (.ofRatio false 3 2) (by decide))
    let two := Json.ofInt 2
    Ranked one middle ∧ Ranked middle two ∧ Ranked one two ∧ sortOrder one middle ≠ .gt ∧
      sortOrder middle two ≠ .gt ∧ sortOrder one two ≠ .gt := by
  intro one middle two
  have ranked : Ranked one middle ∧ Ranked middle two ∧ Ranked one two :=
    ⟨.inr (.inr (.inr rfl)), .inr (.inr (.inr rfl)), .inr (.inr (.inr rfl))⟩
  have low : sortOrder one middle ≠ .gt := by decide
  have high : sortOrder middle two ≠ .gt := by decide
  refine ⟨ranked.1, ranked.2.1, ranked.2.2, low, high, ?_⟩
  refine ((sortOrder_preorder one middle two).2 ranked.1 ranked.2.1 ranked.2.2).2 ?_ low high
  rintro ⟨m, n, k, hm, hn, -, i, j, -, -, -, -, rounded, -⟩
  cases hm
  cases hn
  exact absurd rounded (by decide)

/-- Three numbers of one column, and an integer, a string and an integer, of
which the first is not greater than the second, nor the second than the
third, and still the first is greater than the third. -/
theorem not_preorder :
    ¬(∀ m n k : JsonNumber, sortOrder (.number m) (.number n) ≠ .gt →
      sortOrder (.number n) (.number k) ≠ .gt → sortOrder (.number m) (.number k) ≠ .gt) ∧
    ¬(∀ a b c : Json, sortOrder a b ≠ .gt → sortOrder b c ≠ .gt → sortOrder a c ≠ .gt) := by
  constructor
  · intro transitive
    have rounded := transitive (.int 9007199254740993)
      (.float (.ofInt 9007199254740992) (by decide)) (.int 9007199254740992)
    exact absurd (rounded (by decide) (by decide)) (by decide)
  · intro transitive
    have mixed := transitive (.ofInt 2) (.string "x") (.ofInt 1)
    exact absurd (mixed (by decide) (by decide)) (by decide)

end Store

end EntityQuery
