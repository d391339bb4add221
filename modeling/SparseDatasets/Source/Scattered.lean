import SparseDatasets.Dataset.Config
import SparseDatasets.Random.Subset
import SparseDatasets.Source.Basic

/-!
# Scattered matrices

A scattered matrix holds the numbers one, two, three and so on at random cells, in the order of
the cells. Its support is known before the matrix is, and is declared without a look at it.

- `Scattered.create`: checks the parameters.
- `Scattered.target`: how many cells the density asks for.
- `Scattered.generateWith`: one matrix, with its cells from a given sampler.
- `Scattered.generate`: one matrix.
-/

namespace SparseDatasets

/-- A source of scattered matrices. -/
structure Scattered where
  rows : Nat
  cols : Nat
  density : Binary64

namespace Scattered

/-- Checks the parameters of a source. -/
def create (rows cols : Nat) (density : Binary64) : Except DatasetError Scattered := do
  checkDimensions rows cols
  checkDensity density
  return ⟨rows, cols, density⟩

variable (source : Scattered)

/-- How many cells the density asks for, rounded down. -/
def target : Nat := (Binary64.ofNat (source.rows * source.cols) * source.density).toWord.toNat

/-- How many cells get a value. -/
def count : Nat := min source.target (source.rows * source.cols)

variable {σ : Type} [WordStream σ] {α : Type} [Scalar α]

/-- The cells that hold one, two, three and so on at ascending positions. -/
def scatter (cells : Nat) (positions : List Nat) : Array α :=
  positions.zipIdx.foldl (fun grid (position, ordinal) =>
    grid.setIfInBounds position (Scalar.ofNat (ordinal + 1))) (Array.replicate cells 0)

/-- Generates a matrix whose cells a sampler picks. -/
def generateWith {σ α : Type} [Scalar α] (sample : Draw.Sampler σ) : Draw σ (Generated α) := do
  let cells := source.rows * source.cols
  let picked ← sample cells source.count
  let positions := picked.mergeSort
  return ⟨⟨source.rows, source.cols, scatter cells positions⟩, ⟨positions.toArray⟩⟩

/-- Generates a matrix. -/
def generate : Draw σ (Generated α) := source.generateWith Draw.subset

end Scattered

end SparseDatasets
