import SparseDatasets.Dataset.Config
import SparseDatasets.Random.Scalar
import SparseDatasets.Source.Basic

/-!
# Symmetric positive definite matrices

Both sources multiply a random matrix with its transpose. Each entry is computed once and stored
on both sides of the diagonal, so the result is symmetric whatever the arithmetic does. A source is
made for no order whose cells a word cannot count, so no cell is missing from the matrices that it
fills.

- `Dense.symmetricM`, `Dense.symmetric`: a matrix from its upper triangle.
- `dot`: the sum of the products of two columns over a range of rows.
- `SparseDefinite`: the product of a sparse unit lower triangular factor's transpose with it.
- `DenseDefinite`: the same of a matrix of entries from `[0, 1)`, with its order added on the
  diagonal.
-/

namespace SparseDatasets

/-! ## Symmetric matrices -/

/-- The coordinates on and above the diagonal, row by row. -/
def upperTriangle (n : Nat) : List (Nat × Nat) :=
  (List.range n).flatMap fun i => (List.range' i (n - i)).map fun j => (i, j)

/-- The symmetric matrix whose upper triangle has the values of `entry`, which is run once for
each coordinate of the triangle, row by row. Each value is stored at its coordinate and across the
diagonal from it before the next one is computed. -/
def Dense.symmetricM {m : Type → Type} [Monad m] {α : Type} [Element α] (n : Nat)
    (entry : Nat → Nat → m α) : ExceptT AccessFault m (Dense α) :=
  (upperTriangle n).foldlM (fun d (i, j) => do
    let x ← entry i j
    let d ← d.set i j x
    d.set j i x) (Dense.zeros n n)

/-- The symmetric matrix whose upper triangle has the values of `entry`. -/
def Dense.symmetric {α : Type} [Element α] (n : Nat) (entry : Nat → Nat → α) :
    Except AccessFault (Dense α) :=
  Id.run (symmetricM n fun i j => pure (entry i j)).run

/-- The sum of the products of the columns `i` and `j` over the rows from `start` up to `stop`,
taken in this order from zero. -/
def dot {α : Type} [Zero α] [Add α] [Mul α] (x : Nat → Nat → α) (start stop i j : Nat) : α :=
  (List.range' start (stop - start)).foldl (fun sum k => sum + x k i * x k j) 0

variable {σ : Type} [WordStream σ]

variable {α : Type} [Scalar α]

/-! ## Sparse matrices -/

/-- A source of sparse symmetric positive definite matrices. -/
structure SparseDefinite where
  size : Nat
  /-- The chance of an entry below the diagonal of the factor. -/
  density : Binary64
  cells_lt : size * size < wordLimit

namespace SparseDefinite

/-- Checks the parameters of a source. -/
def create (size : Nat) (density : Binary64) : Except DatasetError SparseDefinite :=
  match h : checkDimensions size size with
  | .error error => .error error
  | .ok () => do
    checkDensity density
    return ⟨size, density, cells_lt_of_checkDimensions h⟩

variable (source : SparseDefinite)

/-- An entry of the factor: one on the diagonal, zero above it, and below it a nonzero value with
the chance of the density. -/
def factorEntry (i j : Nat) : Draw σ α := do
  if i < j then return 0
  if i = j then return 1
  if ← Draw.bernoulli source.density then Draw.nonzero else return 0

/-- A unit lower triangular matrix. -/
def factor : Draw σ (Dense α) := Dense.ofFnM source.size source.size source.factorEntry

/-- The product of the factor's transpose with the factor. Rows above both columns' diagonals
add nothing and are left out of the sums. -/
def product (factor : Dense α) (size : Nat) : Except AccessFault (Dense α) :=
  Dense.symmetric size fun i j => dot factor.entry (max j i) size i j

/-- Generates a matrix. -/
def generate : ExceptT AccessFault (Draw σ) (Generated α) := do
  let factor : Dense α ← (source.factor : Draw σ (Dense α))
  let dense ← product factor source.size
  return ⟨dense, dense.support⟩

end SparseDefinite

/-! ## Dense matrices -/

/-- A source of dense symmetric positive definite matrices. -/
structure DenseDefinite where
  size : Nat
  cells_lt : size * size < wordLimit

namespace DenseDefinite

/-- Checks the parameters of a source. -/
def create (size : Nat) : Except DatasetError DenseDefinite :=
  match h : checkDimensions size size with
  | .error error => .error error
  | .ok () => .ok ⟨size, cells_lt_of_checkDimensions h⟩

variable (source : DenseDefinite)

/-- The product of the transpose of a matrix with it, and its order on the diagonal. -/
def product (x : Dense α) (size : Nat) : Except AccessFault (Dense α) :=
  Dense.symmetric size fun i j =>
    let sum := dot x.entry 0 size i j
    if i = j then sum + Scalar.ofNat size else sum

/-- Generates a matrix. -/
def generate : ExceptT AccessFault (Draw σ) (Generated α) := do
  let x : Dense α ←
    (Dense.ofFnM source.size source.size fun _ _ => Draw.unit : Draw σ (Dense α))
  let dense ← product x source.size
  return ⟨dense, dense.support⟩

end DenseDefinite

end SparseDatasets
