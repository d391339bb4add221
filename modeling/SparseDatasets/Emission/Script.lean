import SparseDatasets.Dataset.Config
import SparseDatasets.Emission.Symbol
import SparseDatasets.Matrix.Csr

/-!
# Scripts of an emission

What is to be written is decided before anything is: a script holds the lines to be written and
the error, if there is one, that ends the emission after them. An output is then given the lines
one after another.

- `Script`: lines, and perhaps an error after them; `Script.andThen` puts one behind another.
- `Script.csr`: the arrays of a compressed matrix. The columns are encoded first, so a column
  that does not fit stops the emission before the first of the three arrays.
- `Sink`: an output that may hold a limited number of bytes.
- `Sink.run`: gives a script to an output. The output keeps what fits.
-/

namespace SparseDatasets

/-- Lines to be written, and perhaps an error after them. -/
structure Script where
  lines : List String
  error? : Option DatasetError

namespace Script

/-- Nothing to write. -/
def done : Script := ⟨[], none⟩

/-- An error before anything is written. -/
def fail (error : DatasetError) : Script := ⟨[], some error⟩

/-- One script behind another, unless the first one ends in an error. -/
def andThen (first second : Script) : Script :=
  match first.error? with
  | some _ => first
  | none => ⟨first.lines ++ second.lines, second.error?⟩

/-- Scripts one behind another. -/
def sequence (scripts : List Script) : Script := scripts.foldr andThen done

/-- The text of the lines. -/
def text (script : Script) : String := String.join (script.lines.map (· ++ "\n"))

/-! ## What there is to write -/

/-- Opens the writable data section. -/
def dataSection : Script := ⟨[".section .data,\"aw\",@progbits"], none⟩

/-- A symbol. -/
def symbol (s : Symbol) : Script := ⟨s.lines, none⟩

/-- A single value of sixty-four bits. -/
def scalar {α : Type} [LittleEndian α] (name : String) (x : α) : Script :=
  symbol (.scalar name x)

/-- An array, aligned as configured. -/
def array {α : Type} [LittleEndian α] (config : EmissionConfig) (name : String) (xs : Array α) :
    Script :=
  symbol (.array config.alignment name xs)

end Script

/-- The names of the arrays of a compressed matrix. -/
structure CsrNames where
  rowPtr : String
  colIdx : String
  values : String

/-- The three arrays of a compressed matrix, its columns encoded as configured. -/
def Script.csr {α : Type} [LittleEndian α] (config : EmissionConfig) (names : CsrNames)
    (m : Csr α) : Script :=
  match config.columnEncoding.apply m.colIdx with
  | .error error => fail error
  | .ok columns => sequence [array config names.rowPtr m.rowPtr,
      array config names.colIdx columns, array config names.values m.values]

/-! ## Outputs -/

/-- An output that may hold a limited number of bytes, and what it holds. -/
structure Sink where
  limit : Option Nat
  held : ByteArray

namespace Sink

/-- An empty output. -/
def empty (limit : Option Nat) : Sink := ⟨limit, .empty⟩

/-- How many of some bytes still fit. -/
def fitting (sink : Sink) (count : Nat) : Nat :=
  match sink.limit with
  | none => count
  | some limit => min count (limit - sink.held.size)

/-- Gives bytes to an output. It keeps those that fit, and tells whether all of them did. -/
def write (sink : Sink) (bytes : ByteArray) : Bool × Sink :=
  let count := sink.fitting bytes.size
  (count == bytes.size, { sink with held := sink.held ++ bytes.extract 0 count })

/-- Gives lines to an output, up to the first that does not fit. -/
def writeLines (sink : Sink) : List String → Bool × Sink
  | [] => (true, sink)
  | line :: lines =>
    match sink.write (line ++ "\n").toUTF8 with
    | (true, sink) => sink.writeLines lines
    | (false, sink) => (false, sink)

/-- Gives a script to an output. -/
def run (sink : Sink) (script : Script) : Except DatasetError Unit × Sink :=
  match sink.writeLines script.lines with
  | (false, sink) => (.error .outputFull, sink)
  | (true, sink) =>
    match script.error? with
    | some error => (.error error, sink)
    | none => (.ok (), sink)

end Sink

end SparseDatasets
