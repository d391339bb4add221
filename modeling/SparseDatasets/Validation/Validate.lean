import SparseDatasets.Validation.Content
import SparseDatasets.Validation.Report

/-!
# Validation

A wrong sparse encoding goes unnoticed by whoever computes with it, so every encoding is checked
against its source matrix. The checks are independent: each runs and is recorded whatever the
others found.

- `Requirements`: which checks of the source matrix are asked for.
- `checkStructure`: the shape agrees and the layout is sound.
- `validate`: the report of all four checks.
-/

namespace SparseDatasets

/-- Which checks of the source matrix are asked for. -/
structure Requirements where
  diagonal : Bool
  symmetry : Bool
deriving DecidableEq

namespace Requirements

/-- A matrix to be multiplied with a vector may be any matrix. -/
def matrixVector : Requirements := ⟨false, false⟩

/-- The conjugate gradient method needs a symmetric matrix without zeros on its diagonal. -/
def conjugateGradient : Requirements := ⟨true, true⟩

instance : Inhabited Requirements := ⟨matrixVector⟩

end Requirements

variable {α : Type}

/-- The shape of the arrays must be that of the matrix, and their layout sound. -/
def checkStructure (d : Dense α) (m : Csr α) : Except MatrixError Unit :=
  if (d.rows, d.cols) ≠ (m.rows, m.cols) then
    .error (.layout (.shapeMismatch (d.rows, d.cols) (m.rows, m.cols)))
  else match m.checkLayout with
    | .ok () => .ok ()
    | .error defect => .error (.layout defect)

variable [Element α]

/-- The report on arrays that are said to encode a matrix. -/
def validate (d : Dense α) (m : Csr α) (required : Requirements) : Except AccessFault Report := do
  let layout := Status.ofResult (checkStructure d m)
  let decoding := Status.ofResult (← checkDecoding d m)
  let diagonal ← if required.diagonal then Status.ofResult <$> d.checkDiagonal else pure .skipped
  let symmetry ← if required.symmetry then Status.ofResult <$> d.checkSymmetry else pure .skipped
  return ⟨[(.structural, layout), (.decodeEquivalence, decoding),
    (.diagonalNonzero, diagonal), (.symmetry, symmetry)]⟩

end SparseDatasets
