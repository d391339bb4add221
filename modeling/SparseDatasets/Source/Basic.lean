import SparseDatasets.Matrix.Dense

/-!
# What a source of matrices gives

- `Generated`: a dense matrix together with the support that its source declares. The source is
  trusted for neither: the gate checks one against the other.
- `Dense.entry`: a cell, or zero where there is none.
-/

namespace SparseDatasets

/-- A matrix and the support that its source declares for it. -/
structure Generated (α : Type) where
  dense : Dense α
  support : Support
deriving DecidableEq

/-- A cell of a matrix, or zero where there is none. -/
def Dense.entry {α : Type} [Element α] (d : Dense α) (row col : Nat) : α :=
  d.cells.getD (row * d.cols + col) 0

end SparseDatasets
