import SparseDatasets.Dataset.ConjugateGradient
import SparseDatasets.Dataset.MatrixVector

/-!
# Emissions one after another

What an output is given need not be a single dataset. Symbols, matrices and datasets may follow
each other, and an emission that ends in an error keeps none of the later ones from being tried.

- `Emission`, `Emission.script`: what can be emitted, and how it is written.
- `Sink.emit`: gives emissions to an output in order and tells how each of them ends.
-/

namespace SparseDatasets

/-- What can be emitted at once. -/
inductive Emission where
  | dataSection
  | scalar {α : Type} [LittleEndian α] (name : String) (x : α)
  | array {α : Type} [LittleEndian α] (name : String) (xs : Array α)
  | csr {α : Type} [LittleEndian α] (names : CsrNames) (m : Csr α)
  | matrixVector {α : Type} [Element α] (dataset : MatrixVector α)
  | conjugateGradient {α : Type} [Element α] (dataset : ConjugateGradient α)

/-- How an emission is written. -/
def Emission.script (config : EmissionConfig) : Emission → Script
  | dataSection => .dataSection
  | scalar name x => .scalar name x
  | array name xs => .array config name xs
  | csr names m => .csr config names m
  | matrixVector dataset => dataset.script config
  | conjugateGradient dataset => dataset.script config

/-- Gives emissions to an output one after another, whatever comes of each of them. -/
def Sink.emit (sink : Sink) (config : EmissionConfig) :
    List Emission → List (Except DatasetError Unit) × Sink
  | [] => ([], sink)
  | emission :: emissions =>
    let (result, sink) := sink.run (emission.script config)
    let (results, sink) := sink.emit config emissions
    (result :: results, sink)

end SparseDatasets
