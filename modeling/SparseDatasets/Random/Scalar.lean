import SparseDatasets.Element
import SparseDatasets.Random.Words

/-!
# Random scalars

- `Scalar`: elements with the arithmetic that the generators need, and with two ways to make one
  from random bits.
- `Draw.unit`, `Draw.nonzero`: a scalar from `[0, 1)`, and a nonzero one from `[-1, 1)`.
- `Draw.bernoulli`: true with a given probability.
- `Draw.below`: a natural number below a bound, every one equally likely.
-/

namespace SparseDatasets

/-- Elements that can be added, multiplied and drawn at random. -/
class Scalar (α : Type) extends Element α, One α, Add α, Mul α where
  /-- The scalar nearest to a natural number. -/
  ofNat : Nat → α
  /-- A scalar from `[0, 1)`. -/
  unitOfBits : UInt64 → α
  /-- A scalar from `[-1, 1)`. -/
  signedOfBits : UInt64 → α

/-- A double from `[0, 1)` takes fifty-three bits. One from `[-1, 1)` takes fifty-two bits as the
fraction of a number from `[1, 2)`, less one, doubled, less one; the greatest is `1 - 2 ^ -51`, and
no step rounds. -/
instance : Scalar Binary64 where
  ofNat := Binary64.ofNat
  unitOfBits bits := .ofFloat ((bits >>> 11).toFloat * Float.ofBits 0x3ca0000000000000)
  signedOfBits bits :=
    let one : Binary64 := 1
    let fromOne : Binary64 := ⟨bits >>> 12 ||| one.bits⟩
    let fromZero := fromOne - one
    fromZero + fromZero - one

namespace Draw

variable {σ : Type} [WordStream σ]

variable {α : Type} [Scalar α]

/-- A scalar from `[0, 1)`. -/
def unit : Draw σ α := do return Scalar.unitOfBits (← doubleWord)

/-- A nonzero scalar from `[-1, 1)`. -/
def nonzero : Draw σ α :=
  drawUntil (do return Scalar.signedOfBits (← doubleWord)) (fun x => !Element.isZero x) fun _ => 1

/-- A vector of scalars from `[0, 1)`. -/
def vector (length : Nat) : Draw σ (Array α) := do
  let entries ← (List.range length).mapM fun _ => unit
  return entries.toArray

/-- True with the given probability. Nothing is drawn for probability one. -/
def bernoulli (probability : Binary64) : Draw σ Bool := do
  if probability.equal 1 then return true
  let threshold := (probability * ⟨0x43f0000000000000⟩).toWord
  return (← doubleWord) < threshold

/-- A natural number below `bound`. A word times the bound has the result in its upper half; the
lower half is refused beyond the greatest multiple of the bound that evens out the chances. -/
def below (bound : Nat) : Draw σ Nat := do
  let zone := bound * .pow 2 (31 - bound.log2) - 1
  let product ← drawUntil (do return (← word).toNat * bound)
    (fun product => product % UInt32.size ≤ zone) fun _ => 0
  return product / UInt32.size

end Draw

end SparseDatasets
