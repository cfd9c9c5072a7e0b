/-
EntityQuery/Number/Shortest.lean

The shortest decimal that reads back as a given double precision number,
and the ways to lay its digits out.

A finite double is the nearest one to every real of an interval around it;
the ends belong to the interval when the significand is even.  For one
digit, two digits, and so on, the two neighbours of the number on the grid
of that many digits are tried: the first grid with a neighbour inside the
interval wins, and of two neighbours inside, the nearer one.  All
comparisons are between exact natural numbers.

Where the point goes, when the number is written with a power of ten and
whether a whole number keeps a `.0` are the choices of a `DecimalLayout`.
-/
import EntityQuery.Number.Binary64

namespace EntityQuery

/-- The number `digits * 10 ^ exponent`. -/
structure Decimal where
  digits : Nat
  exponent : Int
deriving DecidableEq, Inhabited

namespace Decimal

/-- The number of decimal digits of a natural number, one for zero. -/
def width (n : Nat) : Nat := (Nat.toDigits 10 n).length

/-- The same number without one trailing zero, if there is one. -/
def dropZero (d : Decimal) : Decimal :=
  if d.digits % 10 = 0 then ⟨d.digits / 10, d.exponent + 1⟩ else d

end Decimal

namespace Binary64

/-! ### The interval of a double -/

/-- A finite magnitude and the ends of its interval as numerators over one
denominator: the lower end, the number, the upper end, the denominator.
Below a power of two the spacing is halved, so the lower end is nearer. -/
def interval (x : Binary64) : Nat × Nat × Nat × Nat :=
  let m := x.significand
  let below := if m = binade ∧ -1074 < x.exponent then 1 else 2
  let quarter := x.exponent - 2
  let (up, down) :=
    if 0 ≤ quarter then (Nat.pow 2 quarter.toNat, 1) else (1, Nat.pow 2 (-quarter).toNat)
  ((4 * m - below) * up, 4 * m * up, (4 * m + 2) * up, down)

/-! ### The two neighbours on a decimal grid -/

/-- Which way a tie between two equally near decimals goes. -/
inductive Tie where
  | even
  | up
deriving DecidableEq

/-- The decimal on the grid of `10 ^ grid` that reads back as `x` and is
nearest to it, if there is one. -/
def onGrid (x : Binary64) (tie : Tie) (grid : Int) : Option Nat :=
  let (low, mid, high, denom) := x.interval
  let num := if 0 ≤ grid then 1 else Nat.pow 10 (-grid).toNat
  let den := denom * if 0 ≤ grid then Nat.pow 10 grid.toNat else 1
  let floor := mid * num / den
  let rest := mid * num % den
  let closed := x.significand % 2 = 0
  let lowerIn := if closed then low * num ≤ floor * den else low * num < floor * den
  let upperIn := if closed then (floor + 1) * den ≤ high * num else (floor + 1) * den < high * num
  let upperNearer :=
    den < 2 * rest ∨ (2 * rest = den ∧ (tie = .up ∨ floor % 2 = 1))
  if lowerIn ∧ upperIn then some (if upperNearer then floor + 1 else floor)
  else if lowerIn then some floor
  else if upperIn then some (floor + 1)
  else none

/-- The shortest decimal that reads back as the magnitude of a finite
number; of several, the nearest.  Seventeen digits always suffice; the exact
expansion that closes the search is the same number written out. -/
def shortest (x : Binary64) (tie : Tie) : Decimal :=
  if x.isZero then ⟨0, 0⟩
  else
    let (n, d) := x.ratio
    let top := lastPower 10 ((Decimal.width n : Int) - Decimal.width d) n d
    let tried := (List.range 17).findSome? fun (more : Nat) =>
      (x.onGrid tie (top - more)).map fun digits => (⟨digits, top - more⟩ : Decimal).dropZero
    tried.getD
      (if 0 ≤ x.exponent then ⟨n, 0⟩
       else ⟨x.significand * Nat.pow 5 (-x.exponent).toNat, x.exponent⟩)

end Binary64

/-! ### Layout -/

/-- How a decimal is written: the positions of the point, counted from the
first digit, between which it is written without a power of ten (no bound:
always), whether a whole number keeps a fraction of one zero, and the tie. -/
structure DecimalLayout where
  window : Option (Int × Int)
  keepFraction : Bool
  tie : Binary64.Tie

namespace DecimalLayout

/-- The digits without a power of ten, the point after `point` of them. -/
def positional (layout : DecimalLayout) (digits : List Char) (point : Int) : List Char :=
  if point ≤ 0 then
    '0' :: '.' :: (List.replicate (-point).toNat '0' ++ digits)
  else if point < digits.length then
    digits.take point.toNat ++ '.' :: digits.drop point.toNat
  else
    digits ++ List.replicate (point.toNat - digits.length) '0' ++
      (if layout.keepFraction then ['.', '0'] else [])

/-- One digit, the others after the point, and a signed power of ten. -/
def scientific (digits : List Char) (point : Int) : List Char :=
  let power := point - 1
  let lead := match digits with
    | [] => []
    | [d] => [d]
    | d :: ds => d :: '.' :: ds
  lead ++ 'e' :: (if power < 0 then '-' else '+') :: Nat.toDigits 10 power.natAbs

/-- A finite number in this layout. -/
def write (layout : DecimalLayout) (x : Binary64) : List Char :=
  let d := x.shortest layout.tie
  let digits := Nat.toDigits 10 d.digits
  let point := (digits.length : Int) + d.exponent
  let magnitude :=
    match layout.window with
    | none => layout.positional digits point
    | some (first, last) =>
      if first ≤ point ∧ point ≤ last then layout.positional digits point
      else scientific digits point
  if x.negative then '-' :: magnitude else magnitude

end DecimalLayout

end EntityQuery
