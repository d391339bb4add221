/-!
# Binary floating-point words

A binary interchange word holds a sign, an exponent field and a fraction field. Everything here
works on the word as a natural number, so the two widths in use share one set of definitions.

- `BinaryLayout`: the widths of the two fields; `BinaryLayout.double` and `BinaryLayout.single`.
- `BinaryLayout.significand`, `BinaryLayout.quantum`: a finite word stands for
  `significand * 2 ^ quantum`, up to its sign.
- `BinaryLayout.nearest`: the word of the magnitude nearest to a quotient, a half going to the
  even neighbour and what is too large going to infinity.
-/

namespace SparseDatasets

/-- The quotient `num / den` as a whole number, a half going to the even neighbour. -/
def roundHalfEven (num den : Nat) : Nat :=
  let quotient := num / den
  let twice := 2 * (num % den)
  if twice < den then quotient
  else if den < twice then quotient + 1
  else if quotient % 2 = 0 then quotient
  else quotient + 1

/-- The widths of the fields of a binary interchange word. -/
structure BinaryLayout where
  /-- Width of the stored fraction, the leading digit left out. -/
  fractionBits : Nat
  /-- Width of the biased exponent. -/
  exponentBits : Nat
deriving DecidableEq

namespace BinaryLayout

/-- Sixty-four bits: eleven of exponent, fifty-two of fraction. -/
def double : BinaryLayout := ⟨52, 11⟩

/-- Thirty-two bits: eight of exponent, twenty-three of fraction. -/
def single : BinaryLayout := ⟨23, 8⟩

variable (layout : BinaryLayout)

/-! ## The fields of a word -/

/-- The word with only its sign bit set; below it lie the magnitudes. -/
def signWeight : Nat := .pow 2 (layout.fractionBits + layout.exponentBits)

/-- The magnitude that stands for infinity: exponent field full, fraction empty. -/
def infinity : Nat := (Nat.pow 2 layout.exponentBits - 1) * .pow 2 layout.fractionBits

def negative (word : Nat) : Bool := layout.signWeight ≤ word

def magnitude (word : Nat) : Nat := word % layout.signWeight

def exponentField (word : Nat) : Nat := layout.magnitude word / .pow 2 layout.fractionBits

def fractionField (word : Nat) : Nat := word % .pow 2 layout.fractionBits

def isNaN (word : Nat) : Bool := layout.infinity < layout.magnitude word

def isInfinite (word : Nat) : Bool := layout.magnitude word == layout.infinity

/-- Both zeros, whatever their sign. -/
def isZero (word : Nat) : Bool := layout.magnitude word == 0

/-! ## The value of a finite word -/

/-- The exponent of the smallest step between two words. -/
def leastQuantum : Int := 2 - Nat.pow 2 (layout.exponentBits - 1) - layout.fractionBits

/-- The fraction with its leading digit, which the words of exponent field zero lack. -/
def significand (word : Nat) : Nat :=
  if layout.exponentField word = 0 then layout.fractionField word
  else .pow 2 layout.fractionBits + layout.fractionField word

/-- The exponent of the last place of the significand. -/
def quantum (word : Nat) : Int :=
  layout.leastQuantum + ((layout.exponentField word - 1 : Nat) : Int)

/-- Whether the step below a word is half the step above it: a power of two that is not the
first of its kind. -/
def narrowBelow (word : Nat) : Bool :=
  layout.fractionField word == 0 && decide (1 < layout.exponentField word)

/-! ## Rounding to a word -/

/-- The magnitude nearest to `num / den`. The first guess at the quantum leaves the quotient one
digit too many at most; the guess is raised by one if it does, and to the least quantum if it
lies below. A quotient that rounds up to the next power of two carries into the exponent field
by itself. -/
def nearest (num den : Nat) : Nat :=
  if num = 0 then 0 else
  let guess : Int := (num.log2 : Int) - den.log2 - 1 - layout.fractionBits
  let scaled (q : Int) : Nat × Nat := (num * .pow 2 (-q).toNat, den * .pow 2 q.toNat)
  let fits : Bool := (scaled guess).1 / (scaled guess).2 < .pow 2 (layout.fractionBits + 1)
  let q := max layout.leastQuantum (if fits then guess else guess + 1)
  let digits := roundHalfEven (scaled q).1 (scaled q).2
  min layout.infinity ((q - layout.leastQuantum).toNat * .pow 2 layout.fractionBits + digits)

/-- The word of `m * 2 ^ q` with the given sign, rounded to nearest. -/
def nearestScaled (isNegative : Bool) (m : Nat) (q : Int) : Nat :=
  (if isNegative then layout.signWeight else 0) +
    layout.nearest (m * .pow 2 q.toNat) (.pow 2 (-q).toNat)

end BinaryLayout

end SparseDatasets
