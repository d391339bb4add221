import SparseDatasets.Dataset.ConjugateGradient
import SparseDatasets.Proofs.Doubles
import SparseDatasets.Proofs.Fallible
import SparseDatasets.Source.Scattered

/-!
# Configurations that are refused

Parameters are checked where a configuration is taken and once more where a source
is made from it. Both ask the same two questions, whether some matrix has the
dimensions and whether the density is a share, so a source is made from every
configuration that was not refused.

- `Binary64.IsShare`: the densities.
- `checkDimensions_eq`, `checkDensity_eq`: what the two questions say.
- `MatrixVectorConfig.check_eq`, `ConjugateGradientConfig.check_eq_ok`: the configurations that
  are not refused, and the sources that are made from them.
-/

namespace SparseDatasets

/-- A number from zero to one. -/
def Binary64.IsShare (x : Binary64) : Prop := ∃ q, x.rational? = some q ∧ 0 ≤ q ∧ q ≤ 1

/-- Dimensions are refused iff no matrix has them. -/
theorem checkDimensions_eq (rows cols : Nat) :
    (rows ≠ 0 ∧ cols ≠ 0 ∧ rows * cols < wordLimit) ∧ checkDimensions rows cols = .ok () ∨
      ¬ (rows ≠ 0 ∧ cols ≠ 0 ∧ rows * cols < wordLimit) ∧
        checkDimensions rows cols = .error (.invalidDimensions rows cols) := by
  unfold checkDimensions
  by_cases h : rows = 0 ∨ cols = 0 ∨ wordLimit ≤ rows * cols
  · rw [if_pos h]
    exact .inr ⟨by omega, rfl⟩
  · rw [if_neg h]
    exact .inl ⟨by omega, rfl⟩

/-- What is said of dimensions that are not refused. -/
theorem of_checkDimensions_eq_ok {rows cols : Nat} (h : checkDimensions rows cols = .ok ()) :
    rows ≠ 0 ∧ cols ≠ 0 ∧ rows * cols < wordLimit := by
  rcases checkDimensions_eq rows cols with ⟨hcells, -⟩ | ⟨-, hrefused⟩
  · exact hcells
  · rw [hrefused] at h
    cases h

/-- A density is refused iff it is no number from zero to one. -/
theorem checkDensity_eq (x : Binary64) : x.IsShare ∧ checkDensity x = .ok () ∨
    ¬ x.IsShare ∧ checkDensity x = .error (.invalidDensity x) := by
  unfold checkDensity Binary64.IsShare
  rw [← Binary64.between_iff]
  by_cases h : (Binary64.le 0 x && Binary64.le x 1) = true
  · rw [if_pos h]
    exact .inl ⟨h, rfl⟩
  · rw [if_neg h]
    exact .inr ⟨h, rfl⟩

/-- Some matrix has the dimensions. -/
def MatrixVectorConfig.HasCells (config : MatrixVectorConfig) : Prop :=
  config.rows ≠ 0 ∧ config.cols ≠ 0 ∧ config.rows * config.cols < wordLimit

/-- A configuration is refused for its dimensions first and for its density next. -/
theorem MatrixVectorConfig.check_eq (config : MatrixVectorConfig) :
    (¬ config.HasCells ∧ config.check = .error (.invalidDimensions config.rows config.cols)) ∨
      (config.HasCells ∧ ¬ config.density.IsShare ∧
        config.check = .error (.invalidDensity config.density)) ∨
      config.HasCells ∧ config.density.IsShare ∧ config.check = .ok () ∧
        Scattered.create config.rows config.cols config.density =
          .ok ⟨config.rows, config.cols, config.density⟩ := by
  unfold MatrixVectorConfig.check Scattered.create HasCells
  rcases checkDimensions_eq config.rows config.cols with
    ⟨hcells, hdimensions⟩ | ⟨hcells, hdimensions⟩
  · rcases checkDensity_eq config.density with ⟨hshare, hdensity⟩ | ⟨hshare, hdensity⟩
    · rw [hdimensions, hdensity]
      exact .inr (.inr ⟨hcells, hshare, rfl, rfl⟩)
    · rw [hdimensions, hdensity]
      exact .inr (.inl ⟨hcells, hshare, rfl⟩)
  · rw [hdimensions]
    exact .inl ⟨hcells, rfl⟩

/-- A source of dense operands is made for the order of some matrix. -/
theorem DenseDefinite.create_eq_ok {size : Nat} (h : checkDimensions size size = .ok ()) :
    create size = .ok ⟨size, cells_lt_of_checkDimensions h⟩ := by
  unfold create
  split
  · rename_i hrefused
    cases h.symm.trans hrefused
  · rfl

/-- A source of sparse operands is made if the density is one, too. -/
theorem SparseDefinite.create_eq_ok {size : Nat} {density : Binary64}
    (h : checkDimensions size size = .ok ()) (hdensity : checkDensity density = .ok ()) :
    create size density = .ok ⟨size, density, cells_lt_of_checkDimensions h⟩ := by
  unfold create
  split
  · rename_i hrefused
    cases h.symm.trans hrefused
  · rw [hdensity]
    rfl

/-- The order of a system that is not refused is that of some matrix, and both sources are made. -/
theorem ConjugateGradientConfig.check_eq_ok {config : ConjugateGradientConfig}
    (h : config.check = .ok ()) :
    ∃ hword : config.size * config.size < wordLimit, 0 < config.size ∧
      DenseDefinite.create config.size = .ok ⟨config.size, hword⟩ ∧
      SparseDefinite.create config.size config.density =
        .ok ⟨config.size, config.density, hword⟩ := by
  obtain ⟨_, hdimensions, hdensity⟩ := bind_eq_ok.mp h
  obtain ⟨hsize, -, -⟩ := of_checkDimensions_eq_ok hdimensions
  exact ⟨cells_lt_of_checkDimensions hdimensions, Nat.pos_of_ne_zero hsize,
    DenseDefinite.create_eq_ok hdimensions, SparseDefinite.create_eq_ok hdimensions hdensity⟩

end SparseDatasets
