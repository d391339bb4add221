import SparseDatasets.Number.Binary

/-!
# Matrix elements

What a matrix may hold: the two binary floating-point widths and the two signed integer widths.
An element is compared numerically, so both floating-point zeros count as zero, and it is stored
as bytes, least significant first.

- `LittleEndian`: values with a fixed number of bytes.
- `Element`: values a matrix may hold, with their zero and numeric equality.
- `Element.isZero`: whether a value is left out of the sparse support.
- `Element.sameValue`: whether a decoded value reproduces another one; a NaN reproduces a NaN.
-/

namespace SparseDatasets

/-! ## Bytes -/

/-- The lowest `width` bytes of a number, least significant first. -/
def bytesOfNat : (width : Nat) → Nat → List UInt8
  | 0, _ => []
  | width + 1, n => (n % 256).toUInt8 :: bytesOfNat width (n / 256)

/-- Values stored as a fixed number of bytes, least significant first. -/
class LittleEndian (α : Type) where
  /-- How many bytes a value takes. -/
  width : Nat
  /-- The value as an unsigned number of that many bytes. -/
  word : α → Nat

/-- The bytes of a value. -/
def LittleEndian.bytes {α : Type} [LittleEndian α] (x : α) : List UInt8 :=
  bytesOfNat (LittleEndian.width α) (LittleEndian.word x)

instance : LittleEndian UInt8 := ⟨1, UInt8.toNat⟩
instance : LittleEndian UInt16 := ⟨2, UInt16.toNat⟩
instance : LittleEndian UInt32 := ⟨4, UInt32.toNat⟩
instance : LittleEndian UInt64 := ⟨8, UInt64.toNat⟩
instance : LittleEndian Int32 := ⟨4, fun x => x.toUInt32.toNat⟩
instance : LittleEndian Int64 := ⟨8, fun x => x.toUInt64.toNat⟩
instance : LittleEndian Binary32 := ⟨4, fun x => x.bits.toNat⟩
instance : LittleEndian Binary64 := ⟨8, fun x => x.bits.toNat⟩

/-! ## Elements -/

/-- Values a matrix may hold. Their zero is the value of the cells that are not stored. -/
class Element (α : Type) extends LittleEndian α, Zero α where
  /-- Numeric equality. -/
  equal : α → α → Bool
  /-- The nearest double, for reports. -/
  toBinary64 : α → Binary64

instance : Element Binary64 where
  zero := 0
  equal := Binary64.equal
  toBinary64 := id

instance : Element Binary32 where
  zero := 0
  equal := Binary32.equal
  toBinary64 := Binary32.toBinary64

instance : Element Int32 where
  zero := 0
  equal x y := x == y
  toBinary64 x := Binary64.ofInt x.toInt

instance : Element Int64 where
  zero := 0
  equal x y := x == y
  toBinary64 x := Binary64.ofInt x.toInt

namespace Element

variable {α : Type} [Element α]

/-- Whether a value is left out of the sparse support. -/
def isZero (x : α) : Bool := equal x 0

/-- Whether a decoded value reproduces another one. A value that is not equal to itself, as a NaN
is not, reproduces every value of that kind. -/
def sameValue (x y : α) : Bool := equal x y || (!equal x x && !equal y y)

end Element

end SparseDatasets
