import SparseDatasets.Matrix.Csr

/-!
# Encoding

The encoder turns the ascending offsets of the nonzero cells into compressed rows in one forward
pass and without a division. It keeps the offset just after the open row: an offset at or beyond
it closes the row, and more rows after it if they are empty, and every row still open at the end
is closed there.

- `InputDefect.first?`: the first way in which the input breaks the encoder's contract.
- `Frontier`: the state of the pass.
- `Csr.encode`: the encoder, with the values looked up once for each offset, in order. There is one
  row pointer more than there are rows, and room for all of them is taken first, which fails for the
  greatest number of rows that is a word.
- `Dense.encode`: the encoding of the nonzero cells of a matrix.
-/

namespace SparseDatasets

/-! ## The contract -/

/-- The first offset that is out of range or does not follow the one before it. -/
def InputDefect.firstPosition? (limit : Nat) :
    (position : Nat) → (previous : Option Nat) → List Nat → Option InputDefect
  | _, _, [] => none
  | position, previous, index :: rest =>
    if limit ≤ index then some (.outOfRange position index limit)
    else match previous with
      | some before =>
        if index ≤ before then some (.notAscending position before index)
        else firstPosition? limit (position + 1) (some index) rest
      | none => firstPosition? limit (position + 1) (some index) rest

/-- The first way in which a shape and a list of offsets break the encoder's contract. -/
def InputDefect.first? (rows cols : Nat) (positions : Array Nat) : Option InputDefect :=
  if rows = 0 ∨ cols = 0 then some (.emptyDimension rows cols)
  else if wordLimit ≤ rows * cols then some (.dimensionOverflow rows cols)
  else if indexLimit ≤ cols then some (.indexOverflow cols)
  else if indexLimit ≤ positions.size then some (.indexOverflow positions.size)
  else firstPosition? (rows * cols) 0 none positions.toList

/-! ## The pass -/

/-- The state of the pass: the row that is open, the pointers of the rows closed so far, and the
columns placed so far. -/
structure Frontier where
  /-- The offset just after the row that is open. -/
  boundary : Nat
  /-- The number of rows that are closed. -/
  closed : Nat
  rowPtr : Array UInt32
  colIdx : Array UInt32

namespace Frontier

/-- Before the first offset only the first row is open. -/
def start (cols : Nat) : Frontier := ⟨cols, 0, #[0], #[]⟩

/-- Closes the open row after the columns placed so far. -/
def closeRow (cols : Nat) (s : Frontier) : Frontier :=
  { s with
    boundary := s.boundary + cols
    closed := s.closed + 1
    rowPtr := s.rowPtr.push s.colIdx.size.toUInt32 }

/-- Closes rows until the open one holds `index`. -/
def advance (cols index : Nat) (s : Frontier) : Frontier :=
  if index < s.boundary ∨ cols = 0 then s else advance cols index (s.closeRow cols)
termination_by index + 1 - s.boundary
decreasing_by simp only [closeRow]; omega

/-- Places one offset in its row. -/
def place (cols : Nat) (s : Frontier) (index : Nat) : Frontier :=
  let s := s.advance cols index
  { s with colIdx := s.colIdx.push (index - (s.boundary - cols)).toUInt32 }

/-- The row pointers once all rows are closed. -/
def finish (rows : Nat) (s : Frontier) : Array UInt32 :=
  s.rowPtr ++ Array.replicate (rows - s.closed) s.colIdx.size.toUInt32

/-- The state after a list of offsets. -/
def run (cols : Nat) (positions : List Nat) : Frontier :=
  positions.foldl (place cols) (start cols)

end Frontier

/-- The compressed rows of the given offsets and values. -/
def Csr.ofPositions {α : Type} (rows cols : Nat) (positions : Array Nat) (values : Array α) :
    Csr α :=
  let pass := Frontier.run cols positions.toList
  { rows, cols, rowPtr := pass.finish rows, colIdx := pass.colIdx, values }

/-- Encodes the nonzero cells at the given offsets. The value of each is looked up once, in
order, and nothing is looked up if the input breaks the contract or its row pointers are more than
a word can count. -/
def Csr.encode {m : Type → Type} [Monad m] {α : Type} (rows cols : Nat) (positions : Array Nat)
    (lookup : Nat → m α) : m (Except AccessFault (Except MatrixError (Csr α))) :=
  match InputDefect.first? rows cols positions with
  | some defect => return .ok (.error (.input defect))
  | none =>
    if wordLimit ≤ rows + 1 then return .error .overflow
    else do
      let values ← positions.mapM lookup
      return .ok (.ok (.ofPositions rows cols positions values))

/-- Encodes the nonzero cells of a matrix. -/
def Dense.encode {α : Type} [Element α] (d : Dense α) :
    Except AccessFault (Except MatrixError (Csr α)) :=
  Csr.encode (m := Id) d.rows d.cols d.support.positions fun position =>
    d.cells.getD position 0

end SparseDatasets
