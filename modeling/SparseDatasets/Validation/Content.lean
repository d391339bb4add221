import SparseDatasets.Matrix.Csr

/-!
# Checks of the values

These checks compare values with the source matrix and name the first cell at fault.

- `checkDecoding`: decoding the arrays gives back the matrix, cell by cell.
- `Dense.checkDiagonal`: no diagonal entry is zero.
- `Dense.checkSymmetry`: every entry is the same value as the one across the diagonal.

A matrix that holds fewer cells than its shape says makes the last two run into an
`AccessFault`; the first one compares only the cells that are held.
-/

namespace SparseDatasets

variable {α : Type} [Element α]

/-- Decoding the arrays must give back the matrix, cell by cell. -/
def checkDecoding (d : Dense α) (m : Csr α) : Except AccessFault (Except MatrixError Unit) := do
  let decoded ← m.decodeLoosely d.rows d.cols
  let cells := (d.cells.toList.zip decoded.toList).zipIdx
  match cells.find? (fun ((expected, found), _) => !Element.sameValue expected found) with
  | none => return .ok ()
  | some ((expected, found), k) =>
    return .error (.roundTrip (k / d.cols) (k % d.cols)
      (Element.toBinary64 expected) (Element.toBinary64 found))

/-- Runs `f` at `start` and the `count - 1` numbers after it until it gives a value, and no
further. -/
def searchFrom {m : Type → Type} [Monad m] {β : Type} (f : Nat → m (Option β)) :
    (count start : Nat) → m (Option β)
  | 0, _ => pure none
  | count + 1, start => do
    match ← f start with
    | some x => return some x
    | none => searchFrom f count (start + 1)

namespace Dense

/-- The index of a diagonal entry, if it is zero. -/
def zeroAt? (d : Dense α) (i : Nat) : Except AccessFault (Option Nat) := do
  return if Element.isZero (← d.get i i) then some i else none

/-- No entry of the diagonal may be zero. -/
def checkDiagonal (d : Dense α) : Except AccessFault (Except MatrixError Unit) := do
  match ← searchFrom d.zeroAt? (min d.rows d.cols) 0 with
  | none => return .ok ()
  | some i => return .error (.singularDiagonal i)

/-- The coordinates of an entry, if it differs from the one across the diagonal. -/
def differsAt? (d : Dense α) (row col : Nat) : Except AccessFault (Option (Nat × Nat)) := do
  let upper ← d.get row col
  let lower ← d.get col row
  return if Element.sameValue upper lower then none else some (row, col)

/-- Every entry must be the same value as the one across the diagonal; only square matrices are
asked. The entries above the diagonal are taken row by row. -/
def checkSymmetry (d : Dense α) : Except AccessFault (Except MatrixError Unit) := do
  if d.cols ≠ d.rows then return .error (.input (.notSquare d.rows d.cols))
  let row? (row : Nat) := searchFrom (d.differsAt? row) (d.rows - (row + 1)) (row + 1)
  match ← searchFrom row? d.rows 0 with
  | none => return .ok ()
  | some (row, col) => return .error (.asymmetry row col)

end Dense

end SparseDatasets
