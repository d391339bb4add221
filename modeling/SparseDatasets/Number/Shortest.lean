import SparseDatasets.Number.Word

/-!
# Shortest decimals

The shortest decimal of a binary number is the one with the fewest digits among those that round
back to it. The search goes through the decimal grids from coarse to fine and looks, on each, at
the two grid points around the number; the first grid with a point in the interval of reals that
round to the number wins. Of two points on it the nearer is taken, and a tie goes as asked.

- `Tie`: where an exact half goes.
- `Decimal`: a whole number of units of a power of ten.
- `BinaryLayout.shortest`: the shortest decimal of a finite, nonzero word.
-/

namespace SparseDatasets

/-- Where an exact half between two neighbours goes. -/
inductive Tie where
  | toEven
  | upward
deriving DecidableEq

/-- The number `digits * 10 ^ exponent`. -/
structure Decimal where
  digits : Nat
  exponent : Int
deriving DecidableEq, Inhabited

namespace Decimal

/-- Drops zeros at the end of the digits, at most `fuel` of them. -/
def trimZeros : Nat → Decimal → Decimal
  | 0, d => d
  | fuel + 1, d =>
    if d.digits % 10 = 0 then trimZeros fuel ⟨d.digits / 10, d.exponent + 1⟩ else d

/-- The decimal digits from the leading one on. -/
def digitChars (d : Decimal) : List Char := Nat.toDigits 10 d.digits

/-- The power of ten of the leading digit. -/
def leadingExponent (d : Decimal) : Int := d.exponent + (d.digitChars.length : Int) - 1

end Decimal

/-- The reals that round to a number, in units of a quarter of its last place: the number itself
and the two ends, which belong to it iff `closed`. -/
structure RoundingInterval where
  lower : Nat
  value : Nat
  upper : Nat
  closed : Bool
  /-- A quarter of the last place is `2 ^ unit`. -/
  unit : Int

namespace RoundingInterval

variable (interval : RoundingInterval)

/-- Scale factors that make a quarter place and `10 ^ k` whole numbers of one common unit. -/
def quarterScale (k : Int) : Nat := .pow 2 interval.unit.toNat * .pow 10 (-k).toNat

def gridScale (k : Int) : Nat := .pow 2 (-interval.unit).toNat * .pow 10 k.toNat

/-- Whether `d * 10 ^ k` rounds to the number. -/
def holds (d : Nat) (k : Int) : Bool :=
  let point := d * interval.gridScale k
  let low := interval.lower * interval.quarterScale k
  let high := interval.upper * interval.quarterScale k
  if interval.closed then decide (low ≤ point ∧ point ≤ high)
  else decide (low < point ∧ point < high)

/-- The grid point of step `10 ^ k` just at or below the number. -/
def floorOn (k : Int) : Nat :=
  interval.value * interval.quarterScale k / interval.gridScale k

/-- Which of the grid points `d` and `d + 1` is nearer to the number that lies between them. -/
def nearer (tie : Tie) (d : Nat) (k : Int) : Nat :=
  let twice := 2 * (interval.value * interval.quarterScale k)
  let middle := (2 * d + 1) * interval.gridScale k
  if twice < middle then d
  else if middle < twice then d + 1
  else match tie with
    | .toEven => if d % 2 = 0 then d else d + 1
    | .upward => d + 1

/-- The point of the grid of step `10 ^ k` that stands for the number, if one does. Grids whose
floor is zero are coarser than the number's leading digit and give none. -/
def onGrid (tie : Tie) (k : Int) : Option Nat :=
  let d := interval.floorOn k
  if d = 0 then none
  else match interval.holds d k, interval.holds (d + 1) k with
    | true, true => some (interval.nearer tie d k)
    | true, false => some d
    | false, true => some (d + 1)
    | false, false => none

/-- Goes down from the grid of step `10 ^ k`, over at most `fuel` grids. -/
def search (tie : Tie) : Nat → Int → Decimal
  | 0, k => ⟨interval.floorOn k, k⟩
  | fuel + 1, k =>
    match interval.onGrid tie k with
    | some d => ⟨d, k⟩
    | none => search tie fuel (k - 1)

end RoundingInterval

namespace BinaryLayout

variable (layout : BinaryLayout)

/-- The reals that round to a finite word. -/
def roundingInterval (word : Nat) : RoundingInterval :=
  let m := layout.significand word
  { lower := if layout.narrowBelow word then 4 * m - 1 else 4 * m - 2
    value := 4 * m
    upper := 4 * m + 2
    closed := m % 2 = 0
    unit := layout.quantum word - 2 }

/-- The shortest decimal of a finite, nonzero word. The search starts a little above the leading
digit's power of ten, from `log₁₀ 2 ≈ 30103 / 100000`; seventeen digits always suffice. -/
def shortest (tie : Tie) (word : Nat) : Decimal :=
  let interval := layout.roundingInterval word
  let start : Int := ((interval.value.log2 : Int) + 1 + interval.unit) * 30103 / 100000 + 1
  (interval.search tie 21 start).trimZeros 20

end BinaryLayout

end SparseDatasets
