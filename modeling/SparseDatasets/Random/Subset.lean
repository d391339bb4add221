import SparseDatasets.Random.Scalar

/-!
# Random subsets

A number of distinct positions below a length is drawn in one of three ways, whichever is
cheapest for the two figures.

- `Method`, `Method.choose`: the ways and the choice between them.
- `Draw.bySwapping`: shuffles the front of the list of all positions.
- `Draw.byReplacing`: draws below a growing bound and takes the bound itself for a repetition.
- `Draw.byMarking`: draws anew for a repetition.
- `Draw.Sampler`: what draws positions; `Draw.subset`: one that takes the cheapest way.
-/

namespace SparseDatasets

/-- The ways to draw distinct positions. -/
inductive Method where
  | swapping
  | replacing
  | marking
deriving DecidableEq

/-- Whether a number is below a quotient times another one, in single precision. -/
def belowMultiple (length : Nat) (factor : Float32) (amount : Float32) : Bool :=
  length.toUInt32.toFloat32 < factor * amount

/-- The cheapest way to draw `amount` positions below `length`. A length that takes more than a word
leaves no choice. -/
def Method.choose (length amount : Nat) : Method :=
  let short := length < 500000
  let wanted := amount.toUInt32.toFloat32
  if UInt32.size ≤ length then .marking
  else if amount < 163 then
    let slope : Float32 := if short then 1.6 else 8 / 45
    let base : Float32 := if short then 10 else 70 / 9
    if 11 < amount && belowMultiple length (base + slope * wanted) wanted then .swapping
    else .replacing
  else
    let factor : Float32 := if short then 270 else 330 / 9
    if belowMultiple length factor wanted then .swapping else .marking

namespace Draw

variable {σ : Type} [WordStream σ]

/-- Swaps each of the first `amount` positions with one that is not before it. -/
def bySwapping (length amount : Nat) : Draw σ (List Nat) := do
  let shuffled ← (List.range amount).foldlM (fun positions i => do
    let j ← below (length - i)
    return positions.swapIfInBounds i (i + j)) (Array.range length)
  return (shuffled.extract 0 amount).toList

/-- Draws up to and with each of the last `amount` positions and takes the position itself in
place of a repetition. For fifty positions and more the list is shuffled afterwards, which leaves
its members alone and only uses up words. -/
def byReplacing (length amount : Nat) : Draw σ (List Nat) := do
  let drawn ← (List.range' (length - amount) amount).foldlM (fun drawn k => do
    let t ← below (k + 1)
    return (if drawn.contains t then k else t) :: drawn) []
  if 50 ≤ amount then
    let _ ← (List.range' 1 (amount - 1)).reverse.mapM fun i => below (i + 1)
  return drawn

/-- The first position that is not marked. -/
def firstUnmarked (marks : Array Bool) : Nat := marks.toList.idxOf false

/-- Draws positions until as many as wanted are marked. A length that takes more than a word takes
two words for each position. -/
def byMarking (length amount : Nat) : Draw σ (List Nat) := do
  let wide := UInt32.size ≤ length
  let limit := if wide then UInt64.size else UInt32.size
  let bits : Draw σ Nat := do
    if wide then return (← doubleWord).toNat else return (← word).toNat
  let zone := limit - 1 - (limit - length) % length
  let product : Draw σ Nat :=
    drawUntil (do return (← bits) * length) (fun product => product % limit ≤ zone) fun _ => 0
  let (_, drawn) ← (List.range amount).foldlM (fun (marks, drawn) _ => do
    let position ← drawUntil (do return (← product) / limit)
      (fun position => !marks.getD position true) fun _ => firstUnmarked marks
    return (marks.setIfInBounds position true, position :: drawn))
    (Array.replicate length false, [])
  return drawn

/-- Draws, given a length and an amount, that many distinct positions below the length, in any
order. -/
abbrev Sampler (σ : Type) := (length amount : Nat) → Draw σ (List Nat)

/-- Draws `amount` distinct positions below `length`. -/
def subset : Sampler σ := fun length amount =>
  match Method.choose length amount with
  | .swapping => bySwapping length amount
  | .replacing => byReplacing length amount
  | .marking => byMarking length amount

end Draw

end SparseDatasets
