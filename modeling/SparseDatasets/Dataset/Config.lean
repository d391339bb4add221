import SparseDatasets.Dataset.Error
import SparseDatasets.Element
import SparseDatasets.Json.Form
import SparseDatasets.Matrix.Dense

/-!
# Configurations

- `MatrixVectorConfig`, `ConjugateGradientConfig`: what a dataset is generated from.
- `ColumnEncoding`: how column indices are laid out for the consumer.
- `EmissionConfig`: how a dataset is written.
- `checkDimensions`, `checkDensity`: parameters that no matrix can satisfy are refused, the
  dimensions first.
-/

namespace SparseDatasets

/-! ## Generation -/

/-- Some matrix must have the dimensions. -/
def checkDimensions (rows cols : Nat) : Except DatasetError Unit :=
  if rows = 0 ∨ cols = 0 ∨ wordLimit ≤ rows * cols then .error (.invalidDimensions rows cols)
  else .ok ()

/-- A word can count the cells of such a matrix. -/
theorem cells_lt_of_checkDimensions {rows cols : Nat} (h : checkDimensions rows cols = .ok ()) :
    rows * cols < wordLimit := by
  unfold checkDimensions at h
  split at h
  · cases h
  · omega

/-- A density is a number from zero to one. -/
def checkDensity (density : Binary64) : Except DatasetError Unit :=
  if Binary64.le 0 density && Binary64.le density 1 then .ok ()
  else .error (.invalidDensity density)

/-- Parameters of a dataset for the product of a sparse matrix and a vector. -/
structure MatrixVectorConfig where
  rows : Nat
  cols : Nat
  /-- The share of the cells that hold a value. -/
  density : Binary64
  seed : UInt64
deriving DecidableEq

/-- Parameters of a dataset for the conjugate gradient method. -/
structure ConjugateGradientConfig where
  /-- The order of the system. -/
  size : Nat
  /-- How many iterations the solver makes. -/
  steps : UInt64
  /-- The chance of an entry off the diagonal of the sparse matrix's factor. -/
  density : Binary64
  seed : UInt64
deriving DecidableEq

/-- One tenth. -/
def oneTenth : Binary64 := .ofQuotient false 1 10

instance : Inhabited MatrixVectorConfig := ⟨⟨64, 64, oneTenth, 0⟩⟩

instance : Inhabited ConjugateGradientConfig := ⟨⟨32, 10, oneTenth, 0⟩⟩

/-- Parameters that no matrix can satisfy are refused. -/
def MatrixVectorConfig.check (config : MatrixVectorConfig) : Except DatasetError Unit := do
  checkDimensions config.rows config.cols
  checkDensity config.density

/-- Parameters that no matrix can satisfy are refused. -/
def ConjugateGradientConfig.check (config : ConjugateGradientConfig) :
    Except DatasetError Unit := do
  checkDimensions config.size config.size
  checkDensity config.density

/-! ## Emission -/

/-- How column indices are laid out for the consumer. -/
inductive ColumnEncoding where
  /-- The column itself. -/
  | logical
  /-- The column times the size of an element, an offset in bytes. -/
  | byteOffset (elementBytes : UInt32)
deriving DecidableEq

namespace ColumnEncoding

/-- Byte offsets into an array of elements. -/
def byteOffsetsOf (α : Type) [LittleEndian α] : ColumnEncoding :=
  .byteOffset (LittleEndian.width α).toUInt32

/-- The encoded columns. The first column whose offset does not fit an index is an error. -/
def apply (encoding : ColumnEncoding) (columns : Array UInt32) :
    Except DatasetError (Array UInt32) :=
  match encoding with
  | logical => .ok columns
  | byteOffset elementBytes => columns.mapM fun col =>
    if col.toNat * elementBytes.toNat < indexLimit then .ok (col * elementBytes)
    else .error (.columnOverflow col elementBytes)

end ColumnEncoding

/-- How a dataset is written. -/
structure EmissionConfig where
  /-- The alignment of arrays, as the assembler takes it. -/
  alignment : String
  columnEncoding : ColumnEncoding
deriving DecidableEq

instance : Inhabited EmissionConfig := ⟨⟨"NR_LANES*4", .byteOffsetsOf Binary64⟩⟩

/-! ## JSON forms -/

instance : JsonForm UInt64 where
  toJson n := .ofInt n.toNat
  ofJson? json := (json.natBelow? UInt64.size).map Nat.toUInt64

instance : JsonForm MatrixVectorConfig where
  toJson config := .record [("rows", toJson config.rows), ("cols", toJson config.cols),
    ("density", toJson config.density), ("seed", toJson config.seed)]
  ofJson? json := do
    let [rows, cols, density, seed] ← json.fields? ["rows", "cols", "density", "seed"] | none
    return ⟨← ofJson? rows, ← ofJson? cols, ← ofJson? density, ← ofJson? seed⟩

instance : JsonForm ConjugateGradientConfig where
  toJson config := .record [("size", toJson config.size), ("steps", toJson config.steps),
    ("density", toJson config.density), ("seed", toJson config.seed)]
  ofJson? json := do
    let [size, steps, density, seed] ← json.fields? ["size", "steps", "density", "seed"] | none
    return ⟨← ofJson? size, ← ofJson? steps, ← ofJson? density, ← ofJson? seed⟩

instance : JsonForm ColumnEncoding where
  toJson
    | .logical => .string (some "Logical")
    | .byteOffset elementBytes =>
      .variant "ByteOffset" (.record [("element_bytes", toJson elementBytes)])
  ofJson? json := do
    let (name, payload) ← json.variant?
    match name with
    | "Logical" => if Json.isUnit payload then some .logical else none
    | "ByteOffset" =>
      let [elementBytes] ← (← payload).fields? ["element_bytes"] | none
      return .byteOffset (← ofJson? elementBytes)
    | _ => none

instance : JsonForm EmissionConfig where
  toJson config := .record [("alignment", toJson config.alignment),
    ("column_encoding", toJson config.columnEncoding)]
  ofJson? json := do
    let [alignment, encoding] ← json.fields? ["alignment", "column_encoding"] | none
    return ⟨← ofJson? alignment, ← ofJson? encoding⟩

end SparseDatasets
