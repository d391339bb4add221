import SparseDatasets.Dataset.Gate
import SparseDatasets.Emission.Script
import SparseDatasets.Source.Scattered

/-!
# Datasets for the product of a sparse matrix and a vector

- `MatrixVector`: a validated matrix and the vector to multiply it with.
- `MatrixVector.generateWith`: the dataset of a configuration, with the cells from a given sampler.
  The matrix is drawn from a stream of its own, so the vector depends on the seed and on its length
  only.
- `MatrixVector.generate`: the dataset of a configuration.
- `MatrixVector.script`: the dataset as a data section.
-/

namespace SparseDatasets

/-- A validated matrix and a vector with an entry for each of its columns. -/
structure MatrixVector (α : Type) where
  csr : Csr α
  input : Array α
  report : Report
deriving DecidableEq

namespace MatrixVector

/-- Generates and validates the dataset of a configuration, with the cells that a sampler picks. -/
def generateWith {σ : Type} (α : Type) [WordStream σ] [Scalar α] (sample : Draw.Sampler σ)
    (config : MatrixVectorConfig) :
    Except AccessFault (Except DatasetError (MatrixVector α)) :=
  match config.check, Scattered.create config.rows config.cols config.density with
  | .error error, _ => .ok (.error error)
  | .ok (), .error error => .ok (.error error)
  | .ok (), .ok source => do
    let (child, master) := (Draw.child : Draw σ σ).run (WordStream.ofSeed config.seed)
    let generated : Generated α := ((source.generateWith sample).run child).1
    match ← certify (source.rows, source.cols) generated .matrixVector with
    | .error error => return .error error
    | .ok certified =>
      let input := ((Draw.vector config.cols).run master).1
      return .ok ⟨certified.csr, input, certified.report⟩

/-- Generates and validates the dataset of a configuration. -/
def generate (σ α : Type) [WordStream σ] [Scalar α] (config : MatrixVectorConfig) :
    Except AccessFault (Except DatasetError (MatrixVector α)) :=
  generateWith α (Draw.subset : Draw.Sampler σ) config

variable {α : Type} [Element α]

/-- The dataset as a data section. The last array is where the product goes. -/
def script (config : EmissionConfig) (dataset : MatrixVector α) : Script :=
  let m := dataset.csr
  .sequence [
    .dataSection,
    .scalar "R" m.rows.toUInt64,
    .scalar "C" m.cols.toUInt64,
    .scalar "NZ" m.nnz.toUInt64,
    .csr config ⟨"CSR_PROW", "CSR_INDEX", "CSR_DATA"⟩ m,
    .array config "CSR_IN_VECTOR" dataset.input,
    .array config "CSR_OUT_VECTOR" (Array.replicate m.rows (0 : α))]

end MatrixVector

end SparseDatasets
