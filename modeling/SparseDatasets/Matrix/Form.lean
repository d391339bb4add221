import SparseDatasets.Json.Form
import SparseDatasets.Matrix.Csr

/-!
# JSON forms of matrices and their errors

Matrices are read without a look at their shape: a dense matrix may come with too few cells or
too many, and a compressed one with any three arrays. The names of fields and variants stand as
strings and are part of the format.
-/

namespace SparseDatasets

/-! ## Matrices -/

instance {α : Type} [JsonForm α] : JsonForm (Dense α) where
  toJson d := .record [("rows", toJson d.rows), ("cols", toJson d.cols),
    ("data", .ofList d.cells.toList)]
  ofJson? json := do
    let [rows, cols, data] ← json.fields? ["rows", "cols", "data"] | none
    return ⟨← ofJson? rows, ← ofJson? cols, (← data.list?).toArray⟩

instance : JsonForm Support where
  toJson s := .record [("indices", .ofList s.positions.toList)]
  ofJson? json := do
    let [indices] ← json.fields? ["indices"] | none
    return ⟨(← indices.list?).toArray⟩

instance {α : Type} [JsonForm α] : JsonForm (Csr α) where
  toJson m := .record [("rows", toJson m.rows), ("cols", toJson m.cols),
    ("row_ptr", .ofList m.rowPtr.toList), ("col_idx", .ofList m.colIdx.toList),
    ("values", .ofList m.values.toList)]
  ofJson? json := do
    let [rows, cols, rowPtr, colIdx, values] ←
      json.fields? ["rows", "cols", "row_ptr", "col_idx", "values"] | none
    return ⟨← ofJson? rows, ← ofJson? cols, (← rowPtr.list?).toArray, (← colIdx.list?).toArray,
      (← values.list?).toArray⟩

/-- A shape is an array of two sizes. -/
instance : JsonForm (Nat × Nat) where
  toJson shape := .array [toJson shape.1, toJson shape.2]
  ofJson?
    | .array [rows, cols] => do return (← ofJson? rows, ← ofJson? cols)
    | _ => none

/-! ## Errors -/

namespace InputDefect

/-- The name of a defect and its fields. -/
def variant : InputDefect → String × List (String × Json)
  | emptyDimension rows cols => ("EmptyDimension", [("rows", toJson rows), ("cols", toJson cols)])
  | dimensionOverflow rows cols =>
    ("DimensionOverflow", [("rows", toJson rows), ("cols", toJson cols)])
  | indexOverflow value => ("IndexTypeOverflow", [("value", toJson value)])
  | notAscending position previous index =>
    ("NotAscending", [("position", toJson position), ("previous", toJson previous),
      ("index", toJson index)])
  | outOfRange position index limit =>
    ("OutOfRange", [("position", toJson position), ("index", toJson index),
      ("limit", toJson limit)])
  | lengthMismatch expected found =>
    ("LengthMismatch", [("expected", toJson expected), ("found", toJson found)])
  | notSquare rows cols => ("NotSquare", [("rows", toJson rows), ("cols", toJson cols)])

/-- Reads the defect of the given name. -/
def ofVariant? (name : String) (payload : Json) : Option InputDefect :=
  match name with
  | "EmptyDimension" => do
    let [rows, cols] ← payload.fields? ["rows", "cols"] | none
    return emptyDimension (← ofJson? rows) (← ofJson? cols)
  | "DimensionOverflow" => do
    let [rows, cols] ← payload.fields? ["rows", "cols"] | none
    return dimensionOverflow (← ofJson? rows) (← ofJson? cols)
  | "IndexTypeOverflow" => do
    let [value] ← payload.fields? ["value"] | none
    return indexOverflow (← ofJson? value)
  | "NotAscending" => do
    let [position, previous, index] ← payload.fields? ["position", "previous", "index"] | none
    return notAscending (← ofJson? position) (← ofJson? previous) (← ofJson? index)
  | "OutOfRange" => do
    let [position, index, limit] ← payload.fields? ["position", "index", "limit"] | none
    return outOfRange (← ofJson? position) (← ofJson? index) (← ofJson? limit)
  | "LengthMismatch" => do
    let [expected, found] ← payload.fields? ["expected", "found"] | none
    return lengthMismatch (← ofJson? expected) (← ofJson? found)
  | "NotSquare" => do
    let [rows, cols] ← payload.fields? ["rows", "cols"] | none
    return notSquare (← ofJson? rows) (← ofJson? cols)
  | _ => none

end InputDefect

instance : JsonForm InputDefect where
  toJson defect := .variant defect.variant.1 (.record defect.variant.2)
  ofJson? json := do
    let (name, some payload) ← json.variant? | none
    InputDefect.ofVariant? name payload

namespace LayoutDefect

/-- The name of a defect and its fields. -/
def variant : LayoutDefect → String × List (String × Json)
  | shapeMismatch expected found =>
    ("ShapeMismatch", [("expected", toJson expected), ("found", toJson found)])
  | rowPtrLength expected found =>
    ("RowPtrLength", [("expected", toJson expected), ("found", toJson found)])
  | nonzeroStart found => ("NonZeroOrigin", [("found", toJson found)])
  | decreasingRowPtr row => ("DecreasingRowPtr", [("row", toJson row)])
  | partialSpan row expected consumed =>
    ("PartialSpan", [("row", toJson row), ("expected", toJson expected),
      ("consumed", toJson consumed)])
  | slotCountMismatch rowPtrEnd colIdxLength valuesLength =>
    ("NnzMismatch", [("row_ptr_end", toJson rowPtrEnd), ("col_idx_len", toJson colIdxLength),
      ("values_len", toJson valuesLength)])
  | columnOutOfRange slot col cols =>
    ("ColumnOutOfRange", [("slot", toJson slot), ("col", toJson col), ("cols", toJson cols)])
  | unsortedColumns row slot =>
    ("UnsortedColumns", [("row", toJson row), ("slot", toJson slot)])

/-- Reads the defect of the given name. -/
def ofVariant? (name : String) (payload : Json) : Option LayoutDefect :=
  match name with
  | "ShapeMismatch" => do
    let [expected, found] ← payload.fields? ["expected", "found"] | none
    return shapeMismatch (← ofJson? expected) (← ofJson? found)
  | "RowPtrLength" => do
    let [expected, found] ← payload.fields? ["expected", "found"] | none
    return rowPtrLength (← ofJson? expected) (← ofJson? found)
  | "NonZeroOrigin" => do
    let [found] ← payload.fields? ["found"] | none
    return nonzeroStart (← ofJson? found)
  | "DecreasingRowPtr" => do
    let [row] ← payload.fields? ["row"] | none
    return decreasingRowPtr (← ofJson? row)
  | "PartialSpan" => do
    let [row, expected, consumed] ← payload.fields? ["row", "expected", "consumed"] | none
    return partialSpan (← ofJson? row) (← ofJson? expected) (← ofJson? consumed)
  | "NnzMismatch" => do
    let [rowPtrEnd, colIdxLength, valuesLength] ←
      payload.fields? ["row_ptr_end", "col_idx_len", "values_len"] | none
    return slotCountMismatch (← ofJson? rowPtrEnd) (← ofJson? colIdxLength)
      (← ofJson? valuesLength)
  | "ColumnOutOfRange" => do
    let [slot, col, cols] ← payload.fields? ["slot", "col", "cols"] | none
    return columnOutOfRange (← ofJson? slot) (← ofJson? col) (← ofJson? cols)
  | "UnsortedColumns" => do
    let [row, slot] ← payload.fields? ["row", "slot"] | none
    return unsortedColumns (← ofJson? row) (← ofJson? slot)
  | _ => none

end LayoutDefect

instance : JsonForm LayoutDefect where
  toJson defect := .variant defect.variant.1 (.record defect.variant.2)
  ofJson? json := do
    let (name, some payload) ← json.variant? | none
    LayoutDefect.ofVariant? name payload

instance : JsonForm MatrixError where
  toJson
    | .input defect => .variant "InvalidInput" (toJson defect)
    | .layout defect => .variant "Structural" (toJson defect)
    | .roundTrip row col expected found =>
      .variant "RoundTrip" (.record [("row", toJson row), ("col", toJson col),
        ("expected", toJson expected), ("found", toJson found)])
    | .singularDiagonal index => .variant "SingularDiagonal" (.record [("index", toJson index)])
    | .asymmetry row col =>
      .variant "Asymmetry" (.record [("row", toJson row), ("col", toJson col)])
  ofJson? json := do
    let (name, some payload) ← json.variant? | none
    match name with
    | "InvalidInput" => return .input (← ofJson? payload)
    | "Structural" => return .layout (← ofJson? payload)
    | "RoundTrip" =>
      let [row, col, expected, found] ←
        payload.fields? ["row", "col", "expected", "found"] | none
      return .roundTrip (← ofJson? row) (← ofJson? col) (← ofJson? expected) (← ofJson? found)
    | "SingularDiagonal" =>
      let [index] ← payload.fields? ["index"] | none
      return .singularDiagonal (← ofJson? index)
    | "Asymmetry" =>
      let [row, col] ← payload.fields? ["row", "col"] | none
      return .asymmetry (← ofJson? row) (← ofJson? col)
    | _ => none

/-- The kind of an error is written as its name. -/
def MatrixError.Kind.toJson (kind : MatrixError.Kind) : Json := .string (some kind.name)

end SparseDatasets
