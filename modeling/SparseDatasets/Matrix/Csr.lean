import SparseDatasets.Matrix.Dense

/-!
# Compressed sparse rows

A compressed matrix stores its nonzeros row after row in slots: `colIdx` and `values` give the
column and the value of every slot, and row `r` owns the slots from `rowPtr[r]` up to
`rowPtr[r + 1]`. The record is plain data, and any three arrays are one.

- `Csr.row?`: the slots of one row, if the arrays have them.
- `Csr.checkLayout`: walks the arrays and names the first defect.
- `Csr.toDense`: decodes a matrix whose layout is sound.
- `Csr.decodeLoosely`: decodes any arrays into a given shape and skips what cannot be placed.
-/

namespace SparseDatasets

/-- A matrix in compressed sparse rows. -/
structure Csr (α : Type) where
  rows : Nat
  cols : Nat
  rowPtr : Array UInt32
  colIdx : Array UInt32
  values : Array α
deriving DecidableEq, Inhabited

namespace Csr

variable {α : Type}

/-! ## Slots -/

/-- The row pointer of a row, zero where there is none. -/
def pointer (m : Csr α) (row : Nat) : Nat := (m.rowPtr.getD row 0).toNat

/-- The column of a slot, zero where there is none. -/
def column (m : Csr α) (slot : Nat) : UInt32 := m.colIdx.getD slot 0

/-- The number of slots that have both a column and a value. -/
def slotCount (m : Csr α) : Nat := min m.colIdx.size m.values.size

/-- The number of stored values. -/
def nnz (m : Csr α) : Nat := m.values.size

/-- The share of the stored values in the cells. -/
def sparsity (m : Csr α) : Binary64 := sharedOver m.rows m.cols m.nnz

/-- The columns and values of a row. There are none where a row pointer is missing or where the
span between the two runs backwards or past an array. -/
def row? (m : Csr α) (row : Nat) : Option (Array UInt32 × Array α) := do
  let start ← m.rowPtr[row]?
  let stop ← m.rowPtr[row + 1]?
  if start.toNat ≤ stop.toNat ∧ stop.toNat ≤ m.colIdx.size ∧ stop.toNat ≤ m.values.size then
    some (m.colIdx.extract start.toNat stop.toNat, m.values.extract start.toNat stop.toNat)
  else none

/-! ## The layout check -/

/-- Checks the column of a slot: inside the matrix, and above the column before it unless the row
starts there. -/
def checkSlot (m : Csr α) (row start slot : Nat) : Except LayoutDefect Unit :=
  let col := m.column slot
  if m.cols ≤ col.toNat then .error (.columnOutOfRange slot col m.cols)
  else if start < slot ∧ col ≤ m.column (slot - 1) then .error (.unsortedColumns row slot)
  else .ok ()

/-- Checks the span of one row from the slot where the rows before it ended, and gives the slot
where it ends. -/
def checkRow (m : Csr α) (cursor row : Nat) : Except LayoutDefect Nat := do
  let start := m.pointer row
  let stop := m.pointer (row + 1)
  if stop < start then throw (.decreasingRowPtr row)
  let expected := stop - start
  let consumed := min expected (m.slotCount - cursor)
  (List.range' cursor consumed).forM (m.checkSlot row start)
  if consumed ≠ expected then throw (.partialSpan row expected consumed)
  return cursor + consumed

/-- Walks the rows in order and checks, in this order: the number of row pointers and the first
of them, then for each row that its span does not run backwards, that its columns are in range
and ascend, and that there are slots enough, and last that the rows use up both arrays. -/
def checkLayout (m : Csr α) : Except LayoutDefect Unit := do
  if m.rowPtr.size ≠ m.rows + 1 then
    throw (.rowPtrLength (min (m.rows + 1) (wordLimit - 1)) m.rowPtr.size)
  let first := m.rowPtr.getD 0 0
  if first ≠ 0 then throw (.nonzeroStart first)
  let _ ← (List.range m.rows).foldlM m.checkRow 0
  let final := m.pointer m.rows
  if final ≠ m.colIdx.size ∨ final ≠ m.values.size then
    throw (.slotCountMismatch final m.colIdx.size m.values.size)

variable [Element α]

/-! ## Decoding -/

/-- The value of a slot, zero where there is none. -/
def value (m : Csr α) (slot : Nat) : α := m.values.getD slot 0

/-- What a row stores in the slots from `start` up to `stop`: row, column and value of each. -/
def span (m : Csr α) (row start stop : Nat) : List (Nat × Nat × α) :=
  (List.range' start (stop - start)).map fun slot => (row, (m.column slot).toNat, m.value slot)

/-- Every stored entry, row by row. -/
def entries (m : Csr α) : List (Nat × Nat × α) :=
  (List.range m.rows).flatMap fun row => m.span row (m.pointer row) (m.pointer (row + 1))

/-- Decodes a matrix whose layout is sound: every entry goes to its cell, and all other cells
are zero. -/
def toDense (m : Csr α) : Except AccessFault (Except MatrixError (Dense α)) :=
  match m.checkLayout with
  | .error defect => .ok (.error (.layout defect))
  | .ok () => do
    let dense ← m.entries.foldlM (fun d (row, col, x) => d.set row col x) (.zeros m.rows m.cols)
    return .ok dense

/-- The entries that any arrays place in a shape: spans are cut off where the slots end, and
columns outside the shape are left out. -/
def looseEntries (m : Csr α) (rows cols : Nat) : List (Nat × Nat × α) :=
  (List.range (min rows (m.rowPtr.size - 1))).flatMap fun row =>
    (m.span row (min (m.pointer row) m.slotCount) (min (m.pointer (row + 1)) m.slotCount)).filter
      fun (_, col, _) => col < cols

/-- Decodes any arrays into the cells of a shape. What cannot be placed is skipped, and of two
entries at one cell the later one stays. -/
def decodeLoosely (m : Csr α) (rows cols : Nat) : Except AccessFault (Array α) :=
  (m.looseEntries rows cols).foldlM
    (fun cells (row, col, x) => Dense.writeCell cells (Dense.offset cols row col) x)
    (Array.replicate (cellCount rows cols) 0)

/-- Numeric equality of the shape and the three arrays. -/
def equal (m n : Csr α) : Bool :=
  m.rows == n.rows && m.cols == n.cols && m.rowPtr == n.rowPtr && m.colIdx == n.colIdx &&
    m.values.size == n.values.size &&
    (m.values.toList.zip n.values.toList).all fun (x, y) => Element.equal x y

end Csr

end SparseDatasets
