import SparseDatasets.Number.Word

/-!
# Double and single precision numbers

A number is its word: two numbers are equal as Lean values iff their bits are, while the numeric
comparison `equal` has both zeros equal and no NaN equal to anything.

- `Binary64`, `Binary32`: the words.
- `Binary64.equal`, `Binary32.equal`: numeric equality, read off the bits.
- `Binary32.toBinary64`, `Binary64.toBinary32`: widening is exact, narrowing rounds to nearest.
- The arithmetic of `Binary64` is that of the processor's doubles.
-/

namespace SparseDatasets

/-- A double precision number, as its sixty-four bits. -/
structure Binary64 where
  bits : UInt64
deriving DecidableEq, Inhabited

/-- A single precision number, as its thirty-two bits. -/
structure Binary32 where
  bits : UInt32
deriving DecidableEq, Inhabited

namespace Binary64

open BinaryLayout (double)

/-! ## Classes of numbers -/

def isNaN (x : Binary64) : Bool := double.isNaN x.bits.toNat

def isInfinite (x : Binary64) : Bool := double.isInfinite x.bits.toNat

def isZero (x : Binary64) : Bool := double.isZero x.bits.toNat

def negative (x : Binary64) : Bool := double.negative x.bits.toNat

/-- Numeric equality: the zeros are equal, a NaN equals nothing. -/
def equal (x y : Binary64) : Bool :=
  !x.isNaN && !y.isNaN && (x.bits == y.bits || (x.isZero && y.isZero))

/-! ## Constants and conversions -/

instance : Zero Binary64 := ⟨⟨0⟩⟩

instance : One Binary64 := ⟨⟨0x3ff0000000000000⟩⟩

/-- The quiet NaN of positive sign and no payload. -/
def nan : Binary64 := ⟨0x7ff8000000000000⟩

/-- The number of sign `isNegative` nearest to `num / den`. -/
def ofQuotient (isNegative : Bool) (num den : Nat) : Binary64 :=
  ⟨((if isNegative then double.signWeight else 0) + double.nearest num den).toUInt64⟩

/-- The number nearest to a natural number. -/
def ofNat (n : Nat) : Binary64 := ofQuotient false n 1

/-- The number nearest to an integer; zero is positive. -/
def ofInt (n : Int) : Binary64 := ofQuotient (n < 0) n.natAbs 1

def toFloat (x : Binary64) : Float := Float.ofBits x.bits

def ofFloat (x : Float) : Binary64 := ⟨x.toBits⟩

/-! ## Arithmetic and order -/

instance : Add Binary64 := ⟨fun x y => ofFloat (x.toFloat + y.toFloat)⟩

instance : Sub Binary64 := ⟨fun x y => ofFloat (x.toFloat - y.toFloat)⟩

instance : Mul Binary64 := ⟨fun x y => ofFloat (x.toFloat * y.toFloat)⟩

instance : Div Binary64 := ⟨fun x y => ofFloat (x.toFloat / y.toFloat)⟩

/-- The order of the numbers; nothing is below or above a NaN. -/
def le (x y : Binary64) : Bool := decide (x.toFloat ≤ y.toFloat)

/-- The whole part of a number, held to the words of sixty-four bits: what is negative or no
number gives zero, what is too large the greatest word. -/
def toWord (x : Binary64) : UInt64 := x.toFloat.toUInt64

/-- The nearest single precision number; a NaN stays one. -/
def toBinary32 (x : Binary64) : Binary32 :=
  let word := x.bits.toNat
  let sign := if x.negative then BinaryLayout.single.signWeight else 0
  if x.isNaN then ⟨(sign + 0x7fc00000).toUInt32⟩
  else if x.isInfinite then ⟨(sign + BinaryLayout.single.infinity).toUInt32⟩
  else ⟨(BinaryLayout.single.nearestScaled x.negative
    (double.significand word) (double.quantum word)).toUInt32⟩

end Binary64

namespace Binary32

open BinaryLayout (single)

/-! ## Single precision -/

def isNaN (x : Binary32) : Bool := single.isNaN x.bits.toNat

def isInfinite (x : Binary32) : Bool := single.isInfinite x.bits.toNat

def isZero (x : Binary32) : Bool := single.isZero x.bits.toNat

def negative (x : Binary32) : Bool := single.negative x.bits.toNat

/-- Numeric equality: the zeros are equal, a NaN equals nothing. -/
def equal (x y : Binary32) : Bool :=
  !x.isNaN && !y.isNaN && (x.bits == y.bits || (x.isZero && y.isZero))

instance : Zero Binary32 := ⟨⟨0⟩⟩

/-- The single precision number nearest to an integer; zero is positive. -/
def ofInt (n : Int) : Binary32 :=
  ⟨(single.nearestScaled (n < 0) n.natAbs 0).toUInt32⟩

/-- The same number in double precision, which always holds it exactly. -/
def toBinary64 (x : Binary32) : Binary64 :=
  let word := x.bits.toNat
  let sign := if x.negative then BinaryLayout.double.signWeight else 0
  if x.isNaN then
    ⟨(sign + BinaryLayout.double.infinity + single.fractionField word * .pow 2 29).toUInt64⟩
  else if x.isInfinite then ⟨(sign + BinaryLayout.double.infinity).toUInt64⟩
  else ⟨(BinaryLayout.double.nearestScaled x.negative
    (single.significand word) (single.quantum word)).toUInt64⟩

end Binary32

end SparseDatasets
