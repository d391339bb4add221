import SparseDatasets.Dataset.Error
import SparseDatasets.Matrix.Encode
import SparseDatasets.Source.Basic
import SparseDatasets.Validation.Validate

/-!
# The gate

Every generated matrix passes through the gate on its way into a dataset: it is encoded at the
support that its source declares, and the encoding is checked against the matrix. All checks run
before the outcome is decided.

- `Certified`: a matrix, its encoding and the clean report on it.
- `certify`: the gate.
-/

namespace SparseDatasets

/-- A matrix, its encoding and the report on it. -/
structure Certified (α : Type) where
  dense : Dense α
  csr : Csr α
  report : Report
deriving DecidableEq

variable {α : Type} [Element α]

/-- Encodes a generated matrix in the shape that its source declares, and lets it pass if every
check that is asked for accepts the encoding. A declared position beyond the cells of the matrix
is an `AccessFault`, and so is a shape with more row pointers than a word can count. -/
def certify (shape : Nat × Nat) (generated : Generated α) (required : Requirements) :
    Except AccessFault (Except DatasetError (Certified α)) := do
  let { dense, support } := generated
  let lookup (position : Nat) : Except AccessFault α :=
    match dense.cells[position]? with
    | some x => .ok x
    | none => .error .unbacked
  match ← (← Csr.encode shape.1 shape.2 support.positions lookup) with
  | .error error => return .error (.encoding error)
  | .ok csr =>
    let report ← validate dense csr required
    match report.result with
    | .error first => return .error (.validation first report)
    | .ok () => return .ok ⟨dense, csr, report⟩

end SparseDatasets
