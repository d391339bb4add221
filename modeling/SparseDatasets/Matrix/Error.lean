import SparseDatasets.Number.Text

/-!
# What can be wrong with a matrix

- `InputDefect`: what is handed to the encoder or to a constructor breaks its contract.
- `LayoutDefect`: the three arrays of a compressed matrix do not fit together.
- `MatrixError`: these two, and the ways a matrix can fail validation; each is of one `Kind`.
- `MatrixError.message`: the wording of an error, its kind first.
- `AccessFault`: a cell that is not there was asked for, or storage that no word can count.
-/

namespace SparseDatasets

/-- Input that breaks the contract of the encoder or of a constructor. -/
inductive InputDefect where
  /-- The number of rows or columns is zero. -/
  | emptyDimension (rows cols : Nat)
  /-- The number of cells does not fit a word. -/
  | dimensionOverflow (rows cols : Nat)
  /-- A number of columns or of nonzeros does not fit an index. -/
  | indexOverflow (value : Nat)
  /-- A nonzero position does not follow the one before it. -/
  | notAscending (position previous index : Nat)
  /-- A nonzero position lies outside the matrix. -/
  | outOfRange (position index limit : Nat)
  /-- The number of values differs from what the shape asks for. -/
  | lengthMismatch (expected found : Nat)
  /-- Symmetry is asked of a matrix that is not square. -/
  | notSquare (rows cols : Nat)
deriving DecidableEq

/-- A defect of the arrays of a compressed matrix. -/
inductive LayoutDefect where
  /-- The shape differs from that of the source matrix. -/
  | shapeMismatch (expected found : Nat × Nat)
  /-- There must be one row pointer more than there are rows. -/
  | rowPtrLength (expected found : Nat)
  /-- The first row pointer must be zero. -/
  | nonzeroStart (found : UInt32)
  /-- A row ends before it begins. -/
  | decreasingRowPtr (row : Nat)
  /-- Fewer slots are left for a row than its span claims. -/
  | partialSpan (row expected consumed : Nat)
  /-- The last row pointer differs from the length of an array of slots. -/
  | slotCountMismatch (rowPtrEnd colIdxLength valuesLength : Nat)
  /-- A stored column lies outside the matrix. -/
  | columnOutOfRange (slot : Nat) (col : UInt32) (cols : Nat)
  /-- The columns of a row do not ascend. -/
  | unsortedColumns (row slot : Nat)
deriving DecidableEq

/-- Why a matrix is refused. -/
inductive MatrixError where
  | input (defect : InputDefect)
  | layout (defect : LayoutDefect)
  /-- Decoding gives another value than the source matrix holds. -/
  | roundTrip (row col : Nat) (expected found : Binary64)
  /-- A diagonal entry is zero. -/
  | singularDiagonal (index : Nat)
  /-- An entry differs from the one across the diagonal. -/
  | asymmetry (row col : Nat)
deriving DecidableEq

namespace MatrixError

/-- The classes of matrix errors. -/
inductive Kind where
  | input
  | layout
  | roundTrip
  | singularDiagonal
  | asymmetry
deriving DecidableEq

/-- The name of a class of errors. -/
def Kind.name : Kind → String
  | .input => "InvalidInput"
  | .layout => "StructuralError"
  | .roundTrip => "RoundTripError"
  | .singularDiagonal => "SingularDiagonalError"
  | .asymmetry => "AsymmetryError"

def kind : MatrixError → Kind
  | .input _ => .input
  | .layout _ => .layout
  | .roundTrip .. => .roundTrip
  | .singularDiagonal _ => .singularDiagonal
  | .asymmetry .. => .asymmetry

end MatrixError

/-! ## Wording -/

/-- A shape as it stands in messages. -/
def shapeText (rows cols : Nat) : String := s!"{rows}x{cols}"

def InputDefect.message : InputDefect → String
  | .emptyDimension rows cols => s!"matrix dimensions {rows}x{cols} must both be positive"
  | .dimensionOverflow rows cols => s!"matrix dimensions {rows}x{cols} overflow the index space"
  | .indexOverflow value => s!"{value} does not fit a 32-bit index"
  | .notAscending position previous index =>
    s!"nonzero index {index} at position {position} does not follow {previous}"
  | .outOfRange position index limit =>
    s!"nonzero index {index} at position {position} is outside [0, {limit})"
  | .lengthMismatch expected found => s!"expected {expected} elements, found {found}"
  | .notSquare rows cols => s!"matrix is {rows}x{cols}, not square"

def LayoutDefect.message : LayoutDefect → String
  | .shapeMismatch expected found =>
    "CSR is " ++ shapeText found.1 found.2 ++ ", source matrix is " ++
      shapeText expected.1 expected.2
  | .rowPtrLength expected found => s!"row_ptr has {found} entries, expected {expected}"
  | .nonzeroStart found => s!"row_ptr[0] is {found}, expected 0"
  | .decreasingRowPtr row => s!"row_ptr decreases after row {row}"
  | .partialSpan row expected consumed =>
    s!"row {row} spans {expected} entries but only {consumed} were available"
  | .slotCountMismatch rowPtrEnd colIdxLength valuesLength =>
    s!"row_ptr ends at {rowPtrEnd} but col_idx has {colIdxLength} and values has {valuesLength} " ++
      "entries"
  | .columnOutOfRange slot col cols => s!"slot {slot} holds column {col}, outside [0, {cols})"
  | .unsortedColumns row slot => s!"row {row} has non-ascending columns at slot {slot}"

namespace MatrixError

/-- What is wrong, without the kind. -/
def detail : MatrixError → String
  | .input defect => defect.message
  | .layout defect => defect.message
  | .roundTrip row col expected found =>
    s!"decoded ({row}, {col}) is " ++ found.message ++ ", source holds " ++ expected.message
  | .singularDiagonal index => s!"diagonal entry ({index}, {index}) is zero"
  | .asymmetry row col => s!"entry ({row}, {col}) differs from ({col}, {row})"

/-- The wording of an error, its kind first. -/
def message (error : MatrixError) : String := error.kind.name ++ ": " ++ error.detail

end MatrixError

/-! ## Access -/

/-- Why an operation breaks off without an answer. -/
inductive AccessFault where
  /-- A cell lies outside the declared shape. -/
  | outside (row col : Nat)
  /-- A cell lies inside the declared shape, but no value is held for it. -/
  | unbacked
  /-- Room is needed for more elements than a word can count. -/
  | overflow
deriving DecidableEq

/-- The wording of a cell outside the shape; the other faults have none. -/
def AccessFault.message? : AccessFault → Option String
  | .outside row col => some s!"index ({row}, {col}) out of bounds"
  | .unbacked | .overflow => none

end SparseDatasets
