import SparseDatasets.Number.Binary
import SparseDatasets.Number.Shortest

/-!
# Texts of numbers

A number is written with its shortest digits, either positionally or with a power of ten. A
`DecimalStyle` says which powers of ten are written positionally, what follows a whole number,
and where an exact tie between two shortest decimals goes.

- `DecimalStyle.message`: the style of numbers inside messages.
- `DecimalStyle.double`, `DecimalStyle.single`: the styles of numbers inside JSON texts.
- `Binary64.message`: the text of a number inside a message.
- `Binary64.literal?`, `Binary32.literal?`: the JSON number of a finite number.
-/

namespace SparseDatasets

/-- How a decimal is laid out. -/
structure DecimalStyle where
  /-- Powers of ten of the leading digit that are written positionally; `none` means all. -/
  positional : Option (Int × Int)
  /-- What follows the digits of a whole number written positionally. -/
  wholeSuffix : String
  /-- Where a tie between two shortest decimals goes. -/
  tie : Tie

/-- One digit before the point, the rest behind it, and the power of ten with its sign. -/
def Decimal.scientific (d : Decimal) : String :=
  let e := d.leadingExponent
  let mantissa := match d.digitChars with
    | first :: second :: rest => first :: '.' :: second :: rest
    | digits => digits
  let sign := if e < 0 then "-" else "+"
  String.ofList mantissa ++ "e" ++ sign ++ toString e.natAbs

namespace DecimalStyle

/-- Numbers inside messages never have an exponent, and whole numbers have no point. -/
def message : DecimalStyle := ⟨none, "", .upward⟩

/-- Double precision in JSON: positional from `10 ^ -5` to `10 ^ 15`. -/
def double : DecimalStyle := ⟨some (-5, 15), ".0", .toEven⟩

/-- Single precision in JSON: positional from `10 ^ -6` to `10 ^ 12`. -/
def single : DecimalStyle := ⟨some (-6, 12), ".0", .toEven⟩

variable (style : DecimalStyle)

/-- Whether a leading power of ten is written positionally. -/
def isPositional (e : Int) : Bool :=
  match style.positional with
  | none => true
  | some (least, greatest) => decide (least ≤ e ∧ e ≤ greatest)

/-- All digits at their places, with zeros up to the point on either side. -/
def writePositional (d : Decimal) : String :=
  let digits := d.digitChars
  let zeros (n : Nat) := List.replicate n '0'
  if 0 ≤ d.exponent then
    String.ofList (digits ++ zeros d.exponent.toNat) ++ style.wholeSuffix
  else
    let places := (-d.exponent).toNat
    if places < digits.length then
      let whole := digits.length - places
      String.ofList (digits.take whole ++ '.' :: digits.drop whole)
    else
      String.ofList ('0' :: '.' :: zeros (places - digits.length) ++ digits)

/-- The text of a positive decimal. -/
def write (d : Decimal) : String :=
  if style.isPositional d.leadingExponent then style.writePositional d else d.scientific

/-- The text of a finite word. -/
def writeWord (layout : BinaryLayout) (word : Nat) : String :=
  let sign := if layout.negative word then "-" else ""
  if layout.isZero word then sign ++ "0" ++ style.wholeSuffix
  else sign ++ style.write (layout.shortest style.tie word)

end DecimalStyle

/-- The text of a number inside a message. -/
def Binary64.message (x : Binary64) : String :=
  if x.isNaN then "NaN"
  else if x.isInfinite then (if x.negative then "-inf" else "inf")
  else DecimalStyle.message.writeWord .double x.bits.toNat

/-- The JSON number of a double precision number; only finite numbers have one. -/
def Binary64.literal? (x : Binary64) : Option String :=
  if x.isNaN || x.isInfinite then none
  else some (DecimalStyle.double.writeWord .double x.bits.toNat)

/-- The JSON number of a single precision number; only finite numbers have one. -/
def Binary32.literal? (x : Binary32) : Option String :=
  if x.isNaN || x.isInfinite then none
  else some (DecimalStyle.single.writeWord .single x.bits.toNat)

end SparseDatasets
