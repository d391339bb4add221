import SparseDatasets.Matrix.Error
import SparseDatasets.Validation.Report

/-!
# Why no dataset is made

- `DatasetError`: the errors of generation and emission.
- `DatasetError.message`: the wording of an error.
- `DatasetError.trail`: the wording followed by that of the error it wraps.
-/

namespace SparseDatasets

/-- Why a dataset cannot be generated or written. -/
inductive DatasetError where
  /-- The encoder refused its input. -/
  | encoding (error : MatrixError)
  /-- A check of the validation failed: the first error and the whole report. -/
  | validation (first : MatrixError) (report : Report)
  /-- The density is no number from zero to one. -/
  | invalidDensity (density : Binary64)
  /-- No matrix has these dimensions. -/
  | invalidDimensions (rows cols : Nat)
  /-- A column times the element size does not fit an index. -/
  | columnOverflow (col elementBytes : UInt32)
  /-- The output takes no more bytes. -/
  | output (reason : String)
deriving DecidableEq

namespace DatasetError

/-- The output took less than it was given. -/
def outputFull : DatasetError := .output "failed to write whole buffer"

/-- The wording of an error. -/
def message : DatasetError → String
  | encoding error => "CSR encoding failed: " ++ error.message
  | validation first _ => "dataset rejected by validation: " ++ first.message
  | invalidDensity density => "density " ++ density.message ++ " is outside [0, 1]"
  | invalidDimensions rows cols => "invalid matrix dimensions " ++ shapeText rows cols
  | columnOverflow col elementBytes =>
    s!"column {col} overflows a 32-bit offset for {elementBytes}-byte elements"
  | output reason => "I/O error: " ++ reason

/-- The wording of the error that an error wraps. -/
def cause? : DatasetError → Option String
  | encoding error => some error.message
  | validation first _ => some first.message
  | output reason => some reason
  | _ => none

/-- The wording of an error, then that of the error it wraps. -/
def trail (error : DatasetError) : String :=
  match error.cause? with
  | some cause => error.message ++ ": " ++ cause
  | none => error.message

end DatasetError

end SparseDatasets
