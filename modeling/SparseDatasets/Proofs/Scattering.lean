import SparseDatasets.Dataset.MatrixVector
import SparseDatasets.Proofs.Configurations
import SparseDatasets.Proofs.Gate
import SparseDatasets.Proofs.Rounding
import SparseDatasets.Proofs.Sampling
import SparseDatasets.Random.ChaCha

/-!
# Scattered datasets

A scattered matrix declares the cells that its sampler picked, and these are the
only ones it fills, so the gate has nothing to object to: a dataset is made from
every configuration, unless its dimensions or its density cannot be, or an index
cannot count its columns or its cells.

- `Scattered.getElem?_scatter`, `Scattered.scatter_of_not_mem`: the cells of a scattered matrix.
- `Scattered.generateWith_yields`: it declares all cells that it fills.
- `MatrixVector.Conforms`: what a dataset made from a configuration is.
- `MatrixVector.generateWith_outcome`: what is made of every configuration.
-/

namespace SparseDatasets

/-! ## Writing cells -/

section Writes

variable {α : Type} {f : Array α → Nat × Nat → Array α} {g : Nat → α} {writes : List (Nat × Nat)}
  {grid : Array α} {p : Nat}

theorem size_writes (hf : ∀ grid cell, f grid cell = grid.setIfInBounds cell.1 (g cell.2)) :
    (writes.foldl f grid).size = grid.size := by
  induction writes generalizing grid with
  | nil => rfl
  | cons cell writes ih => rw [List.foldl_cons, ih, hf, Array.size_setIfInBounds]

/-- A cell that is not written stays. -/
theorem getElem?_writes_of_not_mem
    (hf : ∀ grid cell, f grid cell = grid.setIfInBounds cell.1 (g cell.2))
    (hp : p ∉ writes.map (·.1)) : (writes.foldl f grid)[p]? = grid[p]? := by
  induction writes generalizing grid with
  | nil => rfl
  | cons cell writes ih =>
    rw [List.map_cons, List.mem_cons, not_or] at hp
    rw [List.foldl_cons, ih hp.2, hf, Array.getElem?_setIfInBounds_ne (Ne.symm hp.1)]

/-- A cell that is written once has what was written. -/
theorem getElem?_writes_of_mem
    (hf : ∀ grid cell, f grid cell = grid.setIfInBounds cell.1 (g cell.2))
    (honce : (writes.map (·.1)).Nodup) (hp : p < grid.size) {ordinal : Nat}
    (hmem : (p, ordinal) ∈ writes) : (writes.foldl f grid)[p]? = some (g ordinal) := by
  induction writes generalizing grid with
  | nil => cases hmem
  | cons cell writes ih =>
    rw [List.map_cons, List.nodup_cons] at honce
    rw [List.foldl_cons]
    rcases List.mem_cons.mp hmem with rfl | hmem
    · -- no later write touches the cell
      rw [getElem?_writes_of_not_mem hf honce.1, hf, Array.getElem?_setIfInBounds_self_of_lt hp]
    · refine ih honce.2 ?_ hmem
      rw [hf, Array.size_setIfInBounds]
      exact hp

end Writes

/-! ## Scattered matrices -/

namespace Scattered

variable {α : Type} [Scalar α] {cells : Nat} {positions : List Nat}

theorem size_scatter : (scatter cells positions : Array α).size = cells := by
  unfold scatter
  rw [size_writes (g := fun ordinal => Scalar.ofNat (ordinal + 1)) fun _ _ => rfl,
    Array.size_replicate]

/-- The cells at the positions hold one, two, three and so on. -/
theorem getElem?_scatter (hnodup : positions.Nodup) {k p : Nat} (hp : positions[k]? = some p)
    (hlt : p < cells) : (scatter cells positions : Array α)[p]? = some (Scalar.ofNat (k + 1)) := by
  unfold scatter
  refine getElem?_writes_of_mem (g := fun ordinal => Scalar.ofNat (ordinal + 1))
    (fun _ _ => rfl) ?_ ?_ (List.mk_mem_zipIdx_iff_getElem?.mpr hp)
  · rwa [List.zipIdx_map_fst]
  · rwa [Array.size_replicate]

/-- All other cells are zero. -/
theorem scatter_of_not_mem {p : Nat} (hp : p ∉ positions) {x : α}
    (hx : (scatter cells positions : Array α)[p]? = some x) : x = 0 := by
  unfold scatter at hx
  rw [getElem?_writes_of_not_mem (g := fun ordinal => Scalar.ofNat (ordinal + 1)) (fun _ _ => rfl)
    (by rwa [List.zipIdx_map_fst]), Array.getElem?_replicate] at hx
  split at hx
  · exact (Option.some.inj hx).symm
  · cases hx

/-! ## What a source generates -/

/-- A matrix whose declared cells, and no others, hold one, two, three and so on. -/
structure Fills (source : Scattered) (g : Generated α) : Prop where
  rows_eq : g.dense.rows = source.rows
  cols_eq : g.dense.cols = source.cols
  size_eq : g.dense.cells.size = source.rows * source.cols
  ascending : g.support.positions.toList.Pairwise (· < ·)
  inside : ∀ p ∈ g.support.positions.toList, p < source.rows * source.cols
  length_eq : g.support.positions.toList.length = source.count
  cell : ∀ k p, g.support.positions.toList[k]? = some p →
    g.dense.cells[p]? = some (Scalar.ofNat (k + 1))
  empty : ∀ p ∉ g.support.positions.toList, ∀ x, g.dense.cells[p]? = some x → x = 0

theorem generateWith_yields {σ : Type} {sample : Draw.Sampler σ} (hsample : Draw.Samples sample)
    (source : Scattered) :
    Draw.Yields source.Fills (source.generateWith sample : Draw σ (Generated α)) := by
  unfold generateWith
  have hcount : source.count ≤ source.rows * source.cols := Nat.min_le_right _ _
  refine (hsample hcount).bind fun picked hpicked => .pure ?_
  have hpositions := hpicked.mergeSort
  exact {
    rows_eq := rfl
    cols_eq := rfl
    size_eq := size_scatter
    ascending := hpicked.mergeSort_pairwise
    inside := hpositions.lt
    length_eq := hpositions.length_eq
    cell := fun k p hp => getElem?_scatter hpositions.nodup hp
      (hpositions.lt p (List.mem_of_getElem? hp))
    empty := fun p hp x hx => scatter_of_not_mem hp hx }

variable {source : Scattered} {g : Generated α}

theorem Fills.wellShaped (h : source.Fills g) (hword : source.rows * source.cols < wordLimit) :
    g.dense.WellShaped where
  size_eq := by rw [h.size_eq, h.rows_eq, h.cols_eq]
  size_lt := by rwa [h.size_eq]

/-- A cell that is not declared is zero. -/
theorem Fills.covered [LawfulElement α] (h : source.Fills g) : g.Covered := by
  intro p x hx hnonzero
  by_contra hp
  rw [h.empty p (by simpa using hp) x hx] at hnonzero
  exact Bool.false_ne_true (hnonzero.symm.trans LawfulElement.equal_zero)

/-- The value of a slot is its ordinal. -/
theorem Fills.value_eq (h : source.Fills g) {k : Nat} (hk : k < source.count) :
    g.encoded.values[k]? = some (Scalar.ofNat (k + 1)) := by
  have hslot : k < g.support.positions.toList.length := h.length_eq ▸ hk
  have hposition : g.support.positions[k]? = some g.support.positions.toList[k] := by
    rw [← Array.getElem?_toList, List.getElem?_eq_getElem hslot]
  show (g.support.positions.map fun p => g.dense.cells.getD p 0)[k]? = _
  rw [Array.getElem?_map, hposition, Option.map_some, Array.getD_eq_getD_getElem?,
    h.cell k _ (List.getElem?_eq_getElem hslot), Option.getD_some]

theorem Fills.nnz_eq (h : source.Fills g) : g.encoded.nnz = source.count := by
  show (g.support.positions.map fun p => g.dense.cells.getD p 0).size = _
  rw [Array.size_map, ← h.length_eq, Array.length_toList]

end Scattered

/-! ## Datasets -/

/-- How many cells of a matrix get a value. -/
def MatrixVectorConfig.count (config : MatrixVectorConfig) : Nat :=
  Scattered.count ⟨config.rows, config.cols, config.density⟩

namespace MatrixVector

/-- What a dataset made from a configuration is: the arrays have the shape and are laid out
soundly, they store the numbers one, two, three and so on, each of them exactly, the vector has an
entry for each column, and the checks of the encoding pass. -/
structure Conforms (config : MatrixVectorConfig) (dataset : MatrixVector Binary64) : Prop where
  shape : dataset.csr.rows = config.rows ∧ dataset.csr.cols = config.cols
  layout : dataset.csr.checkLayout = .ok ()
  nnz_eq : dataset.csr.nnz = config.count
  values : ∀ k < config.count, dataset.csr.values[k]? = some (.ofNat (k + 1)) ∧
    (Binary64.ofNat (k + 1)).rational? = some ((k + 1 : Nat) : ℚ)
  input_size : dataset.input.size = config.cols
  statuses : dataset.report.outcomes = [(.structural, .passed), (.decodeEquivalence, .passed),
    (.diagonalNonzero, .skipped), (.symmetry, .skipped)]

/-- What is made of a configuration. -/
inductive Outcome (config : MatrixVectorConfig) : Except DatasetError (MatrixVector Binary64) → Prop
  | noCells : ¬ config.HasCells →
    Outcome config (.error (.invalidDimensions config.rows config.cols))
  | noShare : config.HasCells → ¬ config.density.IsShare →
    Outcome config (.error (.invalidDensity config.density))
  | overflow {n : Nat} : config.HasCells → config.density.IsShare →
    indexLimit ≤ config.cols ∨ indexLimit ≤ config.count →
      Outcome config (.error (.encoding (.input (.indexOverflow n))))
  | made {dataset : MatrixVector Binary64} : config.HasCells → config.density.IsShare →
    config.cols < indexLimit → config.count < indexLimit → Conforms config dataset →
      Outcome config (.ok dataset)

variable {config : MatrixVectorConfig} {g : Generated Binary64}

/-- An index must be able to count the columns and the cells that are declared. -/
theorem certify_of_overflow (hcells : config.HasCells)
    (hfills : Scattered.Fills ⟨config.rows, config.cols, config.density⟩ g)
    (h : indexLimit ≤ config.cols ∨ indexLimit ≤ config.count) (required : Requirements) :
    ∃ n, certify (config.rows, config.cols) g required =
      .ok (.error (.encoding (.input (.indexOverflow n)))) := by
  obtain ⟨hrows, hcols, hword⟩ := hcells
  have hsize : g.support.positions.size = config.count := hfills.length_eq
  exact certify_of_uncountable hrows hcols hword (hsize ▸ h)

/-- The gate has nothing to object to what a source generates. -/
theorem certify_of_fills (hcells : config.HasCells) (hfew : config.rows + 1 < wordLimit)
    (hcols : config.cols < indexLimit) (hcount : config.count < indexLimit)
    (hfills : Scattered.Fills ⟨config.rows, config.cols, config.density⟩ g) :
    g.Declares ∧ certify (config.rows, config.cols) g .matrixVector =
      .ok (.ok ⟨g.dense, g.encoded, .clean .matrixVector⟩) := by
  obtain ⟨hrows, hcols', hword⟩ := hcells
  have hdeclares : g.Declares := {
    rows_pos := hfills.rows_eq ▸ Nat.pos_of_ne_zero hrows
    cols_pos := hfills.cols_eq ▸ Nat.pos_of_ne_zero hcols'
    cells_lt := by rwa [hfills.rows_eq, hfills.cols_eq]
    cols_lt := hfills.cols_eq ▸ hcols
    length_lt := hfills.length_eq ▸ hcount
    ascending := hfills.ascending
    inside := by rw [hfills.rows_eq, hfills.cols_eq]; exact hfills.inside
    rows_lt := hfills.rows_eq ▸ hfew }
  have hmeets : g.dense.Meets .matrixVector := ⟨nofun, nofun⟩
  have hgate := hdeclares.certify_of_meets (hfills.wellShaped hword) hfills.covered hmeets
  rw [hfills.rows_eq, hfills.cols_eq] at hgate
  exact ⟨hdeclares, hgate⟩

/-- Every case that there is, if a word can count the row pointers of a matrix that is asked for. -/
theorem generateWith_cases {σ : Type} [WordStream σ] {sample : Draw.Sampler σ}
    (hsample : Draw.Samples sample) (config : MatrixVectorConfig)
    (hfew : config.check = .ok () → config.rows + 1 < wordLimit) :
    ∃ outcome, generateWith Binary64 sample config = .ok outcome ∧ Outcome config outcome := by
  unfold generateWith
  rcases config.check_eq with
    ⟨hcells, hcheck⟩ | ⟨hcells, hshare, hcheck⟩ | ⟨hcells, hshare, hcheck, hcreate⟩
  · rw [hcheck]
    exact ⟨_, rfl, .noCells hcells⟩
  · -- the configuration is refused, whatever its source makes of the density
    rw [hcheck]
    cases Scattered.create config.rows config.cols config.density <;>
      exact ⟨_, rfl, .noShare hcells hshare⟩
  · rw [hcheck, hcreate]
    dsimp only
    generalize (Draw.child : Draw σ σ).run (WordStream.ofSeed config.seed) = streams
    obtain ⟨child, master⟩ := streams
    dsimp only
    have hfills := Scattered.generateWith_yields (α := Binary64) hsample
      ⟨config.rows, config.cols, config.density⟩ child
    generalize ((Scattered.generateWith (α := Binary64) ⟨config.rows, config.cols, config.density⟩
      sample).run child).1 = g at hfills ⊢
    by_cases hlimit : indexLimit ≤ config.cols ∨ indexLimit ≤ config.count
    · obtain ⟨n, hgate⟩ := certify_of_overflow hcells hfills hlimit .matrixVector
      rw [hgate]
      exact ⟨_, rfl, .overflow hcells hshare hlimit⟩
    · have hcols : config.cols < indexLimit := by omega
      have hcount : config.count < indexLimit := by omega
      obtain ⟨hdeclares, hgate⟩ := certify_of_fills hcells (hfew hcheck) hcols hcount hfills
      -- what an index can count is small enough for a double
      have hexact : ∀ k < config.count, k + 1 < 2 ^ 53 := by
        intro k hk
        have hsmall : indexLimit ≤ 2 ^ 53 := by decide
        omega
      rw [hgate]
      exact ⟨_, rfl, .made hcells hshare hcols hcount {
        shape := ⟨hfills.rows_eq, hfills.cols_eq⟩
        layout := Csr.checkLayout_eq_ok_iff.mpr hdeclares.sound
        nnz_eq := hfills.nnz_eq
        values := fun k hk => ⟨hfills.value_eq hk, Binary64.rational?_ofNat (hexact k hk)⟩
        input_size := Draw.vector_yields config.cols master
        statuses := rfl }⟩

/-- A dataset is made wherever an index can count the columns and the values. -/
theorem exists_dataset {σ : Type} [WordStream σ] (config : MatrixVectorConfig)
    (hcells : config.HasCells) (hfew : config.rows + 1 < wordLimit)
    (hshare : config.density.IsShare) (hcols : config.cols < indexLimit)
    (hcount : config.count < indexLimit) :
    ∃ dataset, generate σ Binary64 config = .ok (.ok dataset) := by
  obtain ⟨outcome, hgenerate, houtcome⟩ := generateWith_cases
    (Draw.subset_samples : Draw.Samples (Draw.subset : Draw.Sampler σ)) config fun _ => hfew
  cases houtcome with
  | noCells hnot => exact absurd hcells hnot
  | noShare _ hnot => exact absurd hshare hnot
  | overflow _ _ hlimit => omega
  | made => exact ⟨_, hgenerate⟩

/-- **A dataset is made from every configuration that asks for one.** Whatever the sampler picks,
generation comes to an end: with an error about the dimensions iff no matrix has them, else with
one about the density iff it is no number from zero to one, else with one about an index iff it
cannot count the columns or the values, and else with a dataset as the configuration describes it.
The gate never refuses what was generated. Memory for a matrix that is asked for and for its row
pointers is taken to be there, so a word can count these. -/
theorem generateWith_outcome {σ : Type} [WordStream σ] {sample : Draw.Sampler σ}
    (hsample : Draw.Samples sample) (config : MatrixVectorConfig)
    (hfew : config.check = .ok () → config.rows + 1 < wordLimit) :
    ∃ outcome, generateWith Binary64 sample config = .ok outcome ∧
      ((∃ rows cols, outcome = .error (.invalidDimensions rows cols)) ↔ ¬ config.HasCells) ∧
      ((∃ density, outcome = .error (.invalidDensity density)) ↔
        config.HasCells ∧ ¬ config.density.IsShare) ∧
      ((∃ n, outcome = .error (.encoding (.input (.indexOverflow n)))) ↔
        config.HasCells ∧ config.density.IsShare ∧
          (indexLimit ≤ config.cols ∨ indexLimit ≤ config.count)) ∧
      ((∃ dataset, outcome = .ok dataset) ↔
        config.HasCells ∧ config.density.IsShare ∧
          config.cols < indexLimit ∧ config.count < indexLimit) ∧
      (∀ dataset, outcome = .ok dataset → Conforms config dataset) ∧
      ∀ first report, outcome ≠ .error (.validation first report) := by
  obtain ⟨outcome, hgenerate, houtcome⟩ := generateWith_cases hsample config hfew
  refine ⟨outcome, hgenerate, ?_⟩
  cases houtcome with
  | noCells hcells => simp [hcells]
  | noShare hcells hshare => simp [hcells, hshare]
  | overflow hcells hshare hlimit =>
    have hnot : ¬ (config.cols < indexLimit ∧ config.count < indexLimit) := by omega
    simp [hcells, hshare, hlimit, hnot]
  | made hcells hshare hcols hcount hconforms =>
    have hnot : ¬ (indexLimit ≤ config.cols ∨ indexLimit ≤ config.count) := by omega
    simp [hcells, hshare, hcols, hcount, hconforms, hnot]

/-- Two of four cells are filled if the density is a half, with the positions that the cheapest way
to draw them gives, and a NaN is no density. -/
theorem generateWith_outcome_half :
    let half : MatrixVectorConfig := ⟨2, 2, ⟨0x3fe0000000000000⟩, 7⟩
    Draw.Samples (Draw.subset : Draw.Sampler ChaCha) ∧
      (∃ dataset, generate ChaCha Binary64 half = .ok (.ok dataset) ∧ dataset.csr.nnz = 2) ∧
      ∃ density, generate ChaCha Binary64 { half with density := .nan } =
        .ok (.error (.invalidDensity density)) := by
  intro half
  have hsamples : Draw.Samples (Draw.subset : Draw.Sampler ChaCha) := Draw.subset_samples
  have hcells : half.HasCells := ⟨by decide, by decide, by decide⟩
  refine ⟨hsamples, ?_, ?_⟩
  · obtain ⟨outcome, hgenerate, -, -, -, hok, hconforms, -⟩ :=
      generateWith_outcome hsamples half fun _ => by decide
    have hshare : half.density.IsShare := Binary64.between_iff.mp (by decide +kernel)
    have hcount : half.count = 2 := by decide +kernel
    obtain ⟨dataset, rfl⟩ := hok.mpr ⟨hcells, hshare, by decide, by rw [hcount]; decide⟩
    exact ⟨dataset, hgenerate, (hconforms dataset rfl).nnz_eq.trans hcount⟩
  · obtain ⟨outcome, hgenerate, -, hdensity, -⟩ :=
      generateWith_outcome hsamples { half with density := .nan } fun _ => by decide
    have hshare : ¬ Binary64.nan.IsShare := Binary64.between_iff.not.mp (by decide +kernel)
    obtain ⟨density, rfl⟩ := hdensity.mpr ⟨hcells, hshare⟩
    exact ⟨density, hgenerate⟩

end MatrixVector

end SparseDatasets
