import SparseDatasets.Dataset.Gate
import SparseDatasets.Emission.Script
import SparseDatasets.Source.Definite

/-!
# Datasets for the conjugate gradient method

- `ConjugateGradient`: a dense operand for the dense solver, a validated sparse one for the
  sparse solver, and a right-hand side for both.
- `ConjugateGradient.generate`: the dataset of a configuration. Each matrix is drawn from a
  stream of its own.
- `ConjugateGradient.script`: the dataset as a data section.
-/

namespace SparseDatasets

/-- Two symmetric positive definite matrices and a right-hand side. -/
structure ConjugateGradient (α : Type) where
  size : Nat
  steps : UInt64
  operand : Dense α
  csr : Csr α
  rhs : Array α
  /-- The share of the sparse operand's cells that are stored. -/
  sparsity : Binary64
  report : Report
deriving DecidableEq

namespace ConjugateGradient

/-- Generates and validates the dataset of a configuration. -/
def generate (σ α : Type) [WordStream σ] [Scalar α] (config : ConjugateGradientConfig) :
    Except AccessFault (Except DatasetError (ConjugateGradient α)) :=
  match config.check, DenseDefinite.create config.size,
      SparseDefinite.create config.size config.density with
  | .error error, _, _ => .ok (.error error)
  | .ok (), .error error, _ => .ok (.error error)
  | .ok (), .ok _, .error error => .ok (.error error)
  | .ok (), .ok denseSource, .ok sparseSource => do
    let (first, master) := (Draw.child : Draw σ σ).run (WordStream.ofSeed config.seed)
    let (second, master) := (Draw.child : Draw σ σ).run master
    let operand : Generated α ← (denseSource.generate.run.run first).1
    let generated : Generated α ← (sparseSource.generate.run.run second).1
    match ← certify (sparseSource.size, sparseSource.size) generated .conjugateGradient with
    | .error error => return .error error
    | .ok certified =>
      return .ok {
        size := config.size
        steps := config.steps
        operand := operand.dense
        csr := certified.csr
        rhs := ((Draw.vector config.size).run master).1
        sparsity := certified.csr.sparsity
        report := certified.report }

variable {α : Type} [Element α]

/-- The dataset as a data section, with room for the vectors and matrices that the solvers work
on. The cells of the matrices are counted by a word. -/
def script (config : EmissionConfig) (dataset : ConjugateGradient α) : Script :=
  let n := dataset.size
  let vector := Array.replicate n (0 : α)
  let matrix := Array.replicate (cellCount n n) (0 : α)
  .sequence [
    .dataSection,
    .scalar "size" n.toUInt64,
    .scalar "step" dataset.steps,
    .scalar "sparsity" dataset.sparsity,
    .array config "A" dataset.operand.cells,
    .array config "b" dataset.rhs,
    .array config "x" vector,
    .array config "r" vector,
    .array config "p" vector,
    .array config "Ax" matrix,
    .array config "Ap" matrix,
    .csr config ⟨"A_PROW", "A_IDX", "A_DATA"⟩ dataset.csr]

end ConjugateGradient

end SparseDatasets
