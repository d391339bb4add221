import SparseDatasets.Number.Binary

/-!
# Streams of random words

Everything random is drawn from a deterministic stream of thirty-two bit words, and any such
stream will do.

- `WordStream`: streams that start from a seed and give one word after another.
- `Draw`: computations that draw from a stream.
- `drawUntil?`: draws until a value is accepted.
- `WordStream.child`: a new stream seeded from an existing one, so that what is drawn from one
  does not depend on how much is drawn from the other.
-/

namespace SparseDatasets

/-- Deterministic streams of thirty-two bit words. -/
class WordStream (σ : Type) where
  ofSeed : UInt64 → σ
  next : σ → UInt32 × σ

/-- A computation that draws from a stream. -/
abbrev Draw (σ : Type) := StateM σ

namespace Draw

variable {σ : Type} [WordStream σ]

/-- The next word. -/
def word : Draw σ UInt32 := WordStream.next

/-- The next two words as one, the lower half first. -/
def doubleWord : Draw σ UInt64 := do
  let low ← word
  let high ← word
  return high.toUInt64 <<< 32 ||| low.toUInt64

/-- A new stream, seeded with the next two words. -/
def child : Draw σ σ := do return WordStream.ofSeed (← doubleWord)

end Draw

variable {σ : Type}

/-- Draws until a value is accepted, and gives up after `fuel` values. -/
def drawUntil? {α : Type} (draw : Draw σ α) (accept : α → Bool) : (fuel : Nat) → Draw σ (Option α)
  | 0 => pure none
  | fuel + 1 => do
    let x ← draw
    if accept x then return some x else drawUntil? draw accept fuel

/-- How many values are drawn at most before one is accepted: more than any run can draw. -/
def patience : Nat := .pow 2 62

/-- Draws until a value is accepted. A stream that never gives one yields `fallback`, which every
caller chooses among the values it accepts. -/
def drawUntil {α : Type} (draw : Draw σ α) (accept : α → Bool) (fallback : Unit → α) :
    Draw σ α := do
  match ← drawUntil? draw accept patience with
  | some x => return x
  | none => return fallback ()

end SparseDatasets
