import SparseDatasets.Validation.Validate

/-!
# Guarded validation

The checks of this library are written with operations that always have a value: an
entry that an array does not hold reads as zero, a difference stops at zero, and a
quotient by zero is zero. Here validation is written a second time, slot by slot and
cell by cell, with a guard at every one of these steps and at every sum and product
that has to fit a word. A guard that fails is a `Fault`, and it stops the whole
validation, where a defect is only what a check reports.

- `Fault`, `Stop`: what can go wrong in a step, and why a check stops.
- `Guarded.read`, `Guarded.sub`, `Guarded.fits`, `Guarded.divMod`: the guarded steps.
- `Guarded.checkLayout`: the walk over the rows and their slots.
- `Guarded.decodeLoosely`, `Guarded.checkDecoding`: decoding any arrays, and the comparison.
- `Guarded.checkDiagonal`, `Guarded.checkSymmetry`: the checks of the source matrix.
- `Guarded.validate`: all four.
-/

namespace SparseDatasets

/-- What can go wrong in a step. -/
inductive Fault where
  /-- An array is read or written at or beyond its end. -/
  | index (position size : Nat)
  /-- A cell is asked for outside the shape of a matrix. -/
  | cell (row col : Nat)
  /-- A difference is negative. -/
  | underflow (x y : Nat)
  /-- A sum or a product does not fit a word. -/
  | overflow (n : Nat)
  /-- A number is divided by zero. -/
  | division (x : Nat)
deriving DecidableEq

/-- Why a check stops: it has found a defect, or a step has gone wrong. -/
inductive Stop (δ : Type) where
  | defect (defect : δ)
  | fault (fault : Fault)

/-- A check that may stop. -/
abbrev Guarded (δ β : Type) : Type := Except (Stop δ) β

namespace Guarded

variable {α β δ : Type}

/-! ## Steps -/

def read (xs : Array β) (i : Nat) : Guarded δ β :=
  match xs[i]? with
  | some x => .ok x
  | none => .error (.fault (.index i xs.size))

def write (xs : Array β) (i : Nat) (x : β) : Guarded δ (Array β) :=
  if h : i < xs.size then .ok (xs.set i x h) else .error (.fault (.index i xs.size))

def sub (x y : Nat) : Guarded δ Nat :=
  if y ≤ x then .ok (x - y) else .error (.fault (.underflow x y))

/-- Stands in front of the use of a sum or a product. -/
def fits (n : Nat) : Guarded δ Unit :=
  if n < wordLimit then .ok () else .error (.fault (.overflow n))

/-- The quotient and the remainder. -/
def divMod (x y : Nat) : Guarded δ (Nat × Nat) :=
  if y = 0 then .error (.fault (.division x)) else .ok (x / y, x % y)

/-! ## The layout check -/

def checkSlot (m : Csr α) (row start slot : Nat) : Guarded LayoutDefect Unit := do
  let col ← read m.colIdx slot
  if m.cols ≤ col.toNat then .error (.defect (.columnOutOfRange slot col m.cols))
  else if start < slot then
    let before ← read m.colIdx (← sub slot 1)
    if col ≤ before then .error (.defect (.unsortedColumns row slot)) else .ok ()
  else .ok ()

/-- Checks slots while there are any and the span claims more, and gives the slot where it stops
and the number of slots that it has checked. -/
def walk (m : Csr α) (row start expected cursor consumed : Nat) :
    Guarded LayoutDefect (Nat × Nat) :=
  if cursor < m.slotCount ∧ consumed < expected then do
    checkSlot m row start cursor
    fits (cursor + 1)
    fits (consumed + 1)
    walk m row start expected (cursor + 1) (consumed + 1)
  else .ok (cursor, consumed)
termination_by expected - consumed

def checkRow (m : Csr α) (cursor row : Nat) : Guarded LayoutDefect Nat := do
  let start ← read m.rowPtr row
  fits (row + 1)
  let stop ← read m.rowPtr (row + 1)
  if stop.toNat < start.toNat then .error (.defect (.decreasingRowPtr row))
  else
    let expected ← sub stop.toNat start.toNat
    let walked ← walk m row start.toNat expected cursor 0
    if walked.2 ≠ expected then .error (.defect (.partialSpan row expected walked.2))
    else .ok walked.1

/-- The number of pointers that is expected is held to the greatest word. -/
def checkLayout (m : Csr α) : Guarded LayoutDefect Unit := do
  if m.rowPtr.size ≠ m.rows + 1 then
    .error (.defect (.rowPtrLength (min (m.rows + 1) (wordLimit - 1)) m.rowPtr.size))
  else
    let first ← read m.rowPtr 0
    if first ≠ 0 then .error (.defect (.nonzeroStart first))
    else
      let _ ← (List.range m.rows).foldlM (checkRow m) 0
      let final ← read m.rowPtr m.rows
      if final.toNat ≠ m.colIdx.size ∨ final.toNat ≠ m.values.size then
        .error (.defect (.slotCountMismatch final.toNat m.colIdx.size m.values.size))
      else .ok ()

variable [Element α]

/-! ## The comparison of the cells -/

def decodeSlot (m : Csr α) (cols row : Nat) (cells : Array α) (slot : Nat) :
    Guarded δ (Array α) := do
  let col ← read m.colIdx slot
  if col.toNat < cols then
    let x ← read m.values slot
    fits (row * cols)
    fits (row * cols + col.toNat)
    write cells (row * cols + col.toNat) x
  else .ok cells

/-- A span that ends before it begins has no slots. -/
def decodeRow (m : Csr α) (cols : Nat) (cells : Array α) (row : Nat) : Guarded δ (Array α) := do
  let start ← read m.rowPtr row
  fits (row + 1)
  let stop ← read m.rowPtr (row + 1)
  let first := min start.toNat m.slotCount
  (List.range' first (min stop.toNat m.slotCount - first)).foldlM (decodeSlot m cols row) cells

def decodeLoosely (m : Csr α) (rows cols : Nat) : Guarded δ (Array α) := do
  fits (rows * cols)
  (List.range (min rows (m.rowPtr.size - 1))).foldlM (decodeRow m cols)
    (Array.replicate (rows * cols) 0)

def checkDecoding (d : Dense α) (m : Csr α) : Guarded MatrixError Unit := do
  let decoded ← decodeLoosely m d.rows d.cols
  match (d.cells.toList.zip decoded.toList).findIdx?
      (fun pair => !Element.sameValue pair.1 pair.2) with
  | none => .ok ()
  | some k =>
    let place ← divMod k d.cols
    let expected ← read d.cells k
    let found ← read decoded k
    .error (.defect (.roundTrip place.1 place.2
      (Element.toBinary64 expected) (Element.toBinary64 found)))

/-! ## The checks of the source matrix -/

def get (d : Dense α) (row col : Nat) : Guarded δ α :=
  if row < d.rows ∧ col < d.cols then do
    fits (row * d.cols)
    fits (row * d.cols + col)
    read d.cells (row * d.cols + col)
  else .error (.fault (.cell row col))

def zeroAt? (d : Dense α) (i : Nat) : Guarded δ (Option Nat) := do
  let x ← get d i i
  return if Element.isZero x then some i else none

def checkDiagonal (d : Dense α) : Guarded MatrixError Unit := do
  match ← searchFrom (zeroAt? d) (min d.rows d.cols) 0 with
  | none => .ok ()
  | some i => .error (.defect (.singularDiagonal i))

def differsAt? (d : Dense α) (row col : Nat) : Guarded δ (Option (Nat × Nat)) := do
  let upper ← get d row col
  let lower ← get d col row
  return if Element.sameValue upper lower then none else some (row, col)

def differsIn? (d : Dense α) (row : Nat) : Guarded δ (Option (Nat × Nat)) := do
  fits (row + 1)
  searchFrom (differsAt? d row) (d.rows - (row + 1)) (row + 1)

def checkSymmetry (d : Dense α) : Guarded MatrixError Unit :=
  if d.cols ≠ d.rows then .error (.defect (.input (.notSquare d.rows d.cols)))
  else do
    match ← searchFrom (differsIn? d) d.rows 0 with
    | none => .ok ()
    | some cell => .error (.defect (.asymmetry cell.1 cell.2))

/-! ## Validation -/

/-- What a check has found, unless a step has gone wrong. -/
def settle (check : Guarded δ β) : Except Fault (Except δ β) :=
  match check with
  | .ok x => .ok (.ok x)
  | .error (.defect defect) => .ok (.error defect)
  | .error (.fault fault) => .error fault

def checkStructure (d : Dense α) (m : Csr α) : Except Fault (Except MatrixError Unit) := do
  if (d.rows, d.cols) ≠ (m.rows, m.cols) then
    return .error (.layout (.shapeMismatch (d.rows, d.cols) (m.rows, m.cols)))
  else
    let result ← settle (checkLayout m)
    return result.mapError .layout

def validate (d : Dense α) (m : Csr α) (required : Requirements) : Except Fault Report := do
  let layout ← checkStructure d m
  let decoding ← settle (checkDecoding d m)
  let diagonal ←
    if required.diagonal then Status.ofResult <$> settle (checkDiagonal d) else pure .skipped
  let symmetry ←
    if required.symmetry then Status.ofResult <$> settle (checkSymmetry d) else pure .skipped
  return ⟨[(.structural, .ofResult layout), (.decodeEquivalence, .ofResult decoding),
    (.diagonalNonzero, diagonal), (.symmetry, symmetry)]⟩

end Guarded

end SparseDatasets
