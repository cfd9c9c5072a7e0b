/-
EntityQuery/Number/Binary64.lean

Double precision numbers, NaN excepted.

The numbers from zero to infinity that the format can hold, listed in
increasing order, are `0, 2^-1074, 2 * 2^-1074, ...` and so on to infinity;
`Binary64.rank` is the position in that list.  The rank is also the number
that the lower 63 bits of the word spell, so order, equality and the word
all come from the rank, and no operation needs the bit layout.

Rounding is done on exact ratios of natural numbers (`Binary64.ofRatio`):
to the nearest number, a tie to the even significand.  Multiplication and
division are the exact result, rounded once.
-/

namespace EntityQuery

/-- The number of magnitudes between two powers of two. -/
abbrev Binary64.binade : Nat := 4503599627370496

/-- A double precision number other than NaN: a sign, and the place of its
magnitude among the magnitudes of the format. -/
structure Binary64 where
  negative : Bool
  rank : Nat
  rank_le : rank ≤ 2047 * Binary64.binade
deriving DecidableEq

namespace Binary64

/-! ### The numbers in order -/

/-- The rank of infinity, the greatest there is. -/
def infinityRank : Nat := 2047 * binade

/-- The number of the given rank; past infinity, infinity. -/
def ofRank (negative : Bool) (rank : Nat) : Binary64 :=
  ⟨negative, min rank infinityRank, Nat.min_le_right _ _⟩

/-- The zero of the given sign. -/
def zero (negative : Bool) : Binary64 := ofRank negative 0

/-- The infinity of the given sign. -/
def infinity (negative : Bool) : Binary64 := ofRank negative infinityRank

instance : Inhabited Binary64 := ⟨zero false⟩

/-- Neither of the infinities. -/
def isFinite (x : Binary64) : Bool := x.rank < infinityRank

/-- One of the two zeros. -/
def isZero (x : Binary64) : Bool := x.rank = 0

/-- The place on the line of all numbers: both zeros are at zero. -/
def place (x : Binary64) : Int := if x.negative then -(x.rank : Int) else x.rank

/-- The order of the numbers; the two zeros are equal. -/
def order (x y : Binary64) : Ordering := compare x.place y.place

/-- The same number of the other sign. -/
def neg (x : Binary64) : Binary64 := { x with negative := !x.negative }

/-- The word of 64 bits that holds the number. -/
def word (x : Binary64) : Nat := (if x.negative then 2048 * binade else 0) + x.rank

/-! ### Significand and exponent -/

/-- A finite magnitude is `significand * 2 ^ exponent`. -/
def significand (x : Binary64) : Nat :=
  if x.rank < binade then x.rank else binade + x.rank % binade

/-- The power of two beside the significand. -/
def exponent (x : Binary64) : Int :=
  if x.rank < binade then -1074 else (x.rank / binade : Nat) - 1075

/-- A finite magnitude as a ratio. -/
def ratio (x : Binary64) : Nat × Nat :=
  if 0 ≤ x.exponent then (x.significand * Nat.pow 2 x.exponent.toNat, 1)
  else (x.significand, Nat.pow 2 (-x.exponent).toNat)

/-! ### Rounding -/

/-- The quotient rounded to the nearest integer, a tie to the even one. -/
def roundHalfEven (n d : Nat) : Nat :=
  if 2 * (n % d) < d ∨ (2 * (n % d) = d ∧ n / d % 2 = 0) then n / d else n / d + 1

/-- Whether `base ^ e` is at most `n / d`. -/
def reaches (base : Nat) (e : Int) (n d : Nat) : Bool :=
  if 0 ≤ e then d * Nat.pow base e.toNat ≤ n else d ≤ n * Nat.pow base (-e).toNat

/-- The greatest `e` with `base ^ e ≤ n / d`, from a guess that is either it
or the next one up. -/
def lastPower (base : Nat) (guess : Int) (n d : Nat) : Int :=
  if reaches base guess n d then guess else guess - 1

/-- The number nearest to `n / d`.  The spacing is the power of two that
leaves 53 bits before it, and never finer than `2^-1074`. -/
def ofRatio (negative : Bool) (n d : Nat) : Binary64 :=
  if n = 0 then zero negative
  else
    let top := lastPower 2 ((n.log2 : Int) - d.log2) n d
    let unit := max (top - 52) (-1074)
    let steps :=
      if 0 ≤ unit then roundHalfEven n (d * Nat.pow 2 unit.toNat)
      else roundHalfEven (n * Nat.pow 2 (-unit).toNat) d
    ofRank negative ((unit + 1074).toNat * binade + steps)

/-- The number nearest to an integer. -/
def ofInt (i : Int) : Binary64 := ofRatio (i < 0) i.natAbs 1

/-- The number nearest to `digits * 10 ^ exponent`.  Powers that no double
can reach are not computed. -/
def ofDecimal (negative : Bool) (digits : Nat) (exponent : Int) : Binary64 :=
  if digits = 0 then zero negative
  else if 400 < exponent then infinity negative
  else if 0 ≤ exponent then ofRatio negative (digits * Nat.pow 10 exponent.toNat) 1
  else if exponent < -(400 + digits.log2 : Int) then zero negative
  else ofRatio negative digits (Nat.pow 10 (-exponent).toNat)

/-! ### Arithmetic -/

/-- The product of two finite numbers. -/
def mul (x y : Binary64) : Binary64 :=
  ofRatio (x.negative != y.negative) (x.ratio.1 * y.ratio.1) (x.ratio.2 * y.ratio.2)

/-- The quotient of two finite numbers, the second not zero. -/
def div (x y : Binary64) : Binary64 :=
  ofRatio (x.negative != y.negative) (x.ratio.1 * y.ratio.2) (x.ratio.2 * y.ratio.1)

end Binary64

end EntityQuery
