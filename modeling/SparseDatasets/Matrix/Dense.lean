import SparseDatasets.Element
import SparseDatasets.Matrix.Error

/-!
# Dense matrices

A dense matrix holds its cells row after row. The record is plain data: its shape and its cells
may disagree, as they do in values read from a text, and whoever asks for a cell that is not held
gets an `AccessFault`. Sizes are words of sixty-four bits, so cell counts and offsets are taken
modulo `2 ^ 64`; they are exact for every shape whose cell count fits a word.

- `Dense.WellShaped`: as many cells as the shape says, and no more than a word can count.
- `Dense.ofCells`, `Dense.ofRows`: constructors that check the shape.
- `Dense.ofFnM`: a matrix from a function of the coordinates, run over them row by row.
- `Dense.get`, `Dense.set`: one cell.
- `Dense.support`: the offsets of the nonzero cells, ascending.
-/

namespace SparseDatasets

/-! ## Sizes -/

/-- One more than the greatest word. -/
def wordLimit : Nat := UInt64.size

/-- One more than the greatest index of a compressed matrix. -/
def indexLimit : Nat := UInt32.size

/-- The number of cells of a shape, as a word. -/
def cellCount (rows cols : Nat) : Nat := rows * cols % wordLimit

/-- The share of `count` in the cells of a shape, zero for a shape without cells. A cell count
that does not fit a word is held to the greatest one. -/
def sharedOver (rows cols count : Nat) : Binary64 :=
  let cells := min (rows * cols) (wordLimit - 1)
  if cells = 0 then 0 else .ofNat count / .ofNat cells

/-- The coordinates of a shape, row by row. -/
def coordinates (rows cols : Nat) : List (Nat × Nat) :=
  (List.range (rows * cols)).map fun k => (k / cols, k % cols)

/-- The offsets of the nonzero cells of a matrix. -/
structure Support where
  positions : Array Nat
deriving DecidableEq, Inhabited

/-- A matrix with all its cells, row after row. -/
structure Dense (α : Type) where
  rows : Nat
  cols : Nat
  cells : Array α
deriving DecidableEq, Inhabited

namespace Dense

variable {α : Type}

/-- As many cells as the shape says, and no more than a word can count. -/
structure WellShaped (d : Dense α) : Prop where
  size_eq : d.cells.size = d.rows * d.cols
  size_lt : d.cells.size < wordLimit

/-! ## Constructors -/

/-- Takes the cells of a matrix row after row. -/
def ofCells (rows cols : Nat) (cells : Array α) : Except InputDefect (Dense α) :=
  if rows = 0 ∨ cols = 0 then .error (.emptyDimension rows cols)
  else if wordLimit ≤ rows * cols then .error (.dimensionOverflow rows cols)
  else if cells.size ≠ rows * cols then .error (.lengthMismatch (rows * cols) cells.size)
  else .ok ⟨rows, cols, cells⟩

/-- Takes the rows of a matrix; the first one sets the number of columns. Space is reserved for the
cells before the rows are looked at, which is left out here, as it has no part in the result. For
rows of different lengths the number of cells to reserve may be no word, which a build that checks
its arithmetic does not get past; any other build reserves less and goes on as here. -/
def ofRows (rows : List (Array α)) : Except InputDefect (Dense α) :=
  let cols := (rows.head?.map Array.size).getD 0
  if rows = [] ∨ cols = 0 then .error (.emptyDimension rows.length cols)
  else match rows.find? (fun row => row.size ≠ cols) with
    | some row => .error (.lengthMismatch cols row.size)
    | none => .ok ⟨rows.length, cols, (rows.map Array.toList).flatten.toArray⟩

/-- The matrix of the values of `f`, which is run once for each cell, row by row. -/
def ofFnM {m : Type → Type} [Monad m] (rows cols : Nat) (f : Nat → Nat → m α) : m (Dense α) := do
  let cells ← (coordinates rows cols).mapM fun (row, col) => f row col
  return ⟨rows, cols, cells.toArray⟩

/-- The matrix of the values of `f`. -/
def ofFn (rows cols : Nat) (f : Nat → Nat → α) : Dense α :=
  ⟨rows, cols, ((coordinates rows cols).map fun (row, col) => f row col).toArray⟩

/-! ## Cells -/

/-- Where a cell lies among the cells of a matrix of `cols` columns. -/
def offset (cols row col : Nat) : Nat := (row * cols + col) % wordLimit

/-- The value of a cell. -/
def get (d : Dense α) (row col : Nat) : Except AccessFault α :=
  if row < d.rows ∧ col < d.cols then
    match d.cells[offset d.cols row col]? with
    | some x => .ok x
    | none => .error .unbacked
  else .error (.outside row col)

/-- Overwrites one of an array of cells. -/
def writeCell (cells : Array α) (position : Nat) (x : α) : Except AccessFault (Array α) :=
  if h : position < cells.size then .ok (cells.set position x h) else .error .unbacked

/-- Overwrites a cell. -/
def set (d : Dense α) (row col : Nat) (x : α) : Except AccessFault (Dense α) :=
  if row < d.rows ∧ col < d.cols then
    match writeCell d.cells (offset d.cols row col) x with
    | .ok cells => .ok { d with cells }
    | .error fault => .error fault
  else .error (.outside row col)

variable [Element α]

/-- The matrix of zeros. -/
def zeros (rows cols : Nat) : Dense α :=
  ⟨rows, cols, Array.replicate (cellCount rows cols) 0⟩

/-! ## Nonzero cells -/

/-- The offsets of the nonzero cells, ascending. -/
def support (d : Dense α) : Support :=
  ⟨((d.cells.toList.zipIdx.filter fun cell => !Element.isZero cell.1).map (·.2)).toArray⟩

/-- The number of nonzero cells. -/
def nnz (d : Dense α) : Nat := d.cells.countP fun x => !Element.isZero x

/-- The share of the nonzero cells. -/
def sparsity (d : Dense α) : Binary64 := sharedOver d.rows d.cols d.nnz

/-- Numeric equality of shape and cells. -/
def equal (d e : Dense α) : Bool :=
  d.rows == e.rows && d.cols == e.cols && d.cells.size == e.cells.size &&
    (d.cells.toList.zip e.cells.toList).all fun (x, y) => Element.equal x y

end Dense

end SparseDatasets
