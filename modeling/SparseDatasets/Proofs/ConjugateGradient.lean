import SparseDatasets.Proofs.Mirroring

/-!
# Datasets for the conjugate gradient method

The gate asks of a sparse operand that it is symmetric and that no diagonal entry is
zero. The source sees to both, whatever numbers are drawn, so a dataset is made from
every configuration whose operand an index can count.

- `DenseDefinite.operand`, `SparseDefinite.operand`: the operands that are drawn for a seed.
- `SparseDefinite.Makes.meets`: the sparse one meets what the gate asks for.
- `ConjugateGradient.generate_eq`: generation goes by what the gate says of it.
- `ConjugateGradient.generate_eq_ok`: the dataset that is made.
-/

namespace SparseDatasets

namespace SparseDefinite

variable {source : SparseDefinite} {g : Generated Binary64}

namespace Makes

/-- No diagonal entry is less than one. -/
theorem one_le_diagonal (h : source.Makes g) {i : Nat} (hi : i < source.size) :
    ∃ x, g.dense.get i i = .ok x ∧ Binary64.le 1 x = true := by
  obtain ⟨entry, hsquare, hdiagonal⟩ := h.square
  refine ⟨_, hsquare.get_eq source.cells_lt hi hi, ?_⟩
  rw [Nat.min_self, Nat.max_self, Binary64.le_iff_atLeast Binary64.rational?_one]
  exact hdiagonal i hi

/-- Entries across the diagonal from each other are the same word. -/
theorem get_symm (h : source.Makes g) {i j : Nat} (hi : i < source.size) (hj : j < source.size) :
    ∃ x, g.dense.get i j = .ok x ∧ g.dense.get j i = .ok x := by
  obtain ⟨entry, hsquare, -⟩ := h.square
  refine ⟨_, hsquare.get_eq source.cells_lt hi hj, ?_⟩
  rw [hsquare.get_eq source.cells_lt hj hi, Nat.min_comm, Nat.max_comm]

/-- The operand meets what the gate asks for. -/
theorem meets (h : source.Makes g) (required : Requirements) : g.dense.Meets required := by
  obtain ⟨entry, hsquare, hdiagonal⟩ := id h.square
  constructor
  · intro _
    rw [Dense.checkDiagonal_eq_ok_iff, hsquare.rows_eq, hsquare.cols_eq, Nat.min_self]
    intro i hi
    refine ⟨_, hsquare.get_eq source.cells_lt hi hi, ?_⟩
    rw [Nat.min_self, Nat.max_self]
    exact Binary64.isZero_of_atLeast_one (hdiagonal i hi)
  · intro _
    exact hsquare.checkSymmetry source.cells_lt

/-- There are no more nonzero cells than cells. -/
theorem nnz_le (h : source.Makes g) : g.dense.nnz ≤ source.size * source.size := by
  obtain ⟨entry, hsquare, -⟩ := id h.square
  exact hsquare.size_eq ▸ Array.countP_le_size

/-- The operand passes the gate with the encoding of its nonzero cells. -/
theorem certify_eq (h : source.Makes g) (hsize : 0 < source.size) (hcols : source.size < indexLimit)
    (hnnz : g.dense.nnz < indexLimit) (required : Requirements) :
    g.dense.encode = .ok (.ok g.dense.compressed) ∧
      certify (source.size, source.size) g required =
        .ok (.ok ⟨g.dense, g.dense.compressed, .clean required⟩) := by
  obtain ⟨entry, hsquare, -⟩ := id h.square
  have hrows : g.dense.rows + 1 < wordLimit := by
    rw [hsquare.rows_eq]
    exact Nat.lt_of_le_of_lt hcols (by decide)
  have hcompressible : g.dense.Compressible := {
    wellShaped := hsquare.wellShaped source.cells_lt
    rows_pos := hsquare.rows_eq ▸ hsize
    cols_pos := hsquare.cols_eq ▸ hsize
    rows_lt := hrows
    cols_lt := hsquare.cols_eq ▸ hcols
    nnz_lt := hnnz }
  refine ⟨hcompressible.encode_eq, ?_⟩
  have hdeclares : g.Declares := {
    toAdmissible := by
      rw [h.support_eq]
      exact hcompressible.admissible
    rows_lt := hrows }
  have hcovered : g.Covered := by
    intro k x hx hnonzero
    rw [h.support_eq, ← Array.mem_toList_iff]
    exact Dense.mem_support.mpr ⟨x, hx, hnonzero⟩
  have hencoded : g.encoded = g.dense.compressed := by
    unfold Generated.encoded
    rw [h.support_eq]
    rfl
  have hgate := hdeclares.certify_of_meets hcompressible.wellShaped hcovered (h.meets required)
  rwa [hsquare.rows_eq, hsquare.cols_eq, hencoded] at hgate

/-- The gate always comes to a decision on the operand. -/
theorem exists_certify_eq (h : source.Makes g) (hsize : 0 < source.size)
    (required : Requirements) :
    ∃ outcome, certify (source.size, source.size) g required = .ok outcome := by
  have hcount : g.support.positions.size = g.dense.nnz := by
    rw [h.support_eq]
    exact g.dense.support_length
  by_cases hlimit : indexLimit ≤ source.size ∨ indexLimit ≤ g.support.positions.size
  · obtain ⟨n, hgate⟩ := certify_of_uncountable hsize.ne' hsize.ne' source.cells_lt hlimit
    exact ⟨_, hgate⟩
  · exact ⟨_, (h.certify_eq hsize (by omega) (by omega) required).2⟩

end Makes

end SparseDefinite

/-! ## Operands -/

section Operands

variable {σ α : Type} [WordStream σ]

/-- Two new streams. -/
def Draw.children : Draw σ (σ × σ) := do return (← child, ← child)

theorem Draw.children_run (s : σ) : (children : Draw σ (σ × σ)).run s =
    ((((child : Draw σ σ).run s).1, ((child : Draw σ σ).run ((child : Draw σ σ).run s).2).1),
      ((child : Draw σ σ).run ((child : Draw σ σ).run s).2).2) := rfl

variable [Scalar α]

/-- The dense operand for a seed. Its stream is the first one to be split off. -/
def DenseDefinite.operand (σ : Type) [WordStream σ] (source : DenseDefinite) (seed : UInt64) :
    Except AccessFault (Generated α) :=
  (source.generate.run.run ((Draw.children : Draw σ _).run (WordStream.ofSeed seed)).1.1).1

/-- The sparse operand for a seed. Its stream is the second one to be split off. -/
def SparseDefinite.operand (σ : Type) [WordStream σ] (source : SparseDefinite) (seed : UInt64) :
    Except AccessFault (Generated α) :=
  (source.generate.run.run ((Draw.children : Draw σ _).run (WordStream.ofSeed seed)).1.2).1

theorem SparseDefinite.of_operand_eq_ok {source : SparseDefinite} {seed : UInt64}
    {g : Generated Binary64} (h : source.operand σ seed = .ok g) : source.Makes g := by
  obtain ⟨g', hg', hmakes⟩ := source.generate_yields
    ((Draw.children : Draw σ _).run (WordStream.ofSeed seed)).1.2
  cases h.symm.trans hg'
  exact hmakes

theorem DenseDefinite.square_of_operand_eq_ok {source : DenseDefinite} {seed : UInt64}
    {g : Generated α} (h : source.operand σ seed = .ok g) :
    ∃ entry, g.dense.Square source.size entry := by
  obtain ⟨g', hg', hsymmetric⟩ := source.generate_symmetric (α := α)
    ((Draw.children : Draw σ _).run (WordStream.ofSeed seed)).1.1
  cases h.symm.trans hg'
  exact hsymmetric.square

end Operands

/-! ## Datasets -/

/-- The share of a count in the cells of a square matrix that has some. -/
theorem sharedOver_eq {n count : Nat} (hn : 0 < n) (hword : n * n < wordLimit) :
    sharedOver n n count = .ofNat count / .ofNat (n * n) := by
  have hmin : min (n * n) (wordLimit - 1) = n * n := by omega
  have hcells : n * n ≠ 0 := (Nat.mul_pos hn hn).ne'
  rw [sharedOver, hmin, if_neg hcells]

namespace ConjugateGradient

/-- Generation goes by what the gate says of the sparse operand. Both operands are drawn without a
fault. -/
theorem generate_eq (σ α : Type) [WordStream σ] [Scalar α] {config : ConjugateGradientConfig}
    (hcheck : config.check = .ok ()) :
    ∃ (hword : config.size * config.size < wordLimit) (operand g : Generated α),
      (DenseDefinite.mk config.size hword).operand σ config.seed = .ok operand ∧
      (SparseDefinite.mk config.size config.density hword).operand σ config.seed = .ok g ∧
      generate σ α config =
        (certify (config.size, config.size) g .conjugateGradient).map fun result =>
          result.map fun c => ⟨config.size, config.steps, operand.dense, c.csr,
            ((Draw.vector config.size).run
              ((Draw.children : Draw σ _).run (WordStream.ofSeed config.seed)).2).1,
            c.csr.sparsity, c.report⟩ := by
  obtain ⟨hword, -, hdense, hsparse⟩ := config.check_eq_ok hcheck
  unfold generate DenseDefinite.operand SparseDefinite.operand
  rw [hcheck, hdense, hsparse, Draw.children_run]
  dsimp only
  -- nothing is asked of the streams that are split off
  generalize (Draw.child : Draw σ σ).run (WordStream.ofSeed config.seed) = streams
  obtain ⟨first, master⟩ := streams
  dsimp only
  generalize (Draw.child : Draw σ σ).run master = streams
  obtain ⟨second, master⟩ := streams
  obtain ⟨operand, hoperand, -⟩ :=
    DenseDefinite.generate_symmetric (α := α) ⟨config.size, hword⟩ first
  obtain ⟨g, hg, -⟩ :=
    SparseDefinite.generate_symmetric (α := α) ⟨config.size, config.density, hword⟩ second
  refine ⟨hword, operand, g, hoperand, hg, ?_⟩
  dsimp only
  rw [hoperand, hg]
  show (certify (config.size, config.size) g .conjugateGradient >>= _) = _
  generalize certify (config.size, config.size) g .conjugateGradient = result
  rcases result with _ | (_ | _) <;> rfl

/-- Generation comes to an end, whatever the configuration: no cell is missing from an operand. -/
theorem exists_generate_eq (σ : Type) [WordStream σ] (config : ConjugateGradientConfig) :
    ∃ outcome, generate σ Binary64 config = .ok outcome := by
  cases hcheck : config.check with
  | error error =>
    rw [generate, hcheck]
    exact ⟨_, rfl⟩
  | ok =>
    obtain ⟨-, hpos, -⟩ := config.check_eq_ok hcheck
    obtain ⟨hword, operand, g, -, hg, hgenerate⟩ := generate_eq σ Binary64 hcheck
    obtain ⟨outcome, hgate⟩ :=
      (SparseDefinite.of_operand_eq_ok hg).exists_certify_eq hpos .conjugateGradient
    rw [hgate] at hgenerate
    exact ⟨_, hgenerate⟩

/-- A dataset is made wherever an index can count the cells. -/
theorem exists_dataset {σ : Type} [WordStream σ] (config : ConjugateGradientConfig)
    (hcheck : config.check = .ok ()) (hcells : config.size * config.size < indexLimit) :
    ∃ dataset, generate σ Binary64 config = .ok (.ok dataset) := by
  obtain ⟨-, hpos, -⟩ := config.check_eq_ok hcheck
  obtain ⟨hword, operand, g, -, hg, hgenerate⟩ := generate_eq σ Binary64 hcheck
  have hmakes := SparseDefinite.of_operand_eq_ok hg
  have hsize : config.size < indexLimit := Nat.lt_of_le_of_lt (Nat.le_mul_of_pos_left _ hpos) hcells
  have hnnz : g.dense.nnz < indexLimit := Nat.lt_of_le_of_lt hmakes.nnz_le hcells
  rw [(hmakes.certify_eq hpos hsize hnnz .conjugateGradient).2] at hgenerate
  exact ⟨_, hgenerate⟩

/-- **No configuration that is taken fails at the gate.** Whatever numbers are drawn, the sparse
operand is made without a fault. It is symmetric to the last bit, and no diagonal entry is less than
one. If the order of the system and the operand's nonzero cells can be counted by an index, a
dataset is made: all four checks pass, the shapes and the vector have the order that was asked for,
the arrays are the encoding of the sparse operand, and the sparsity is the share of its stored
cells. -/
theorem generate_eq_ok (σ : Type) [WordStream σ] (config : ConjugateGradientConfig)
    (hcheck : config.check = .ok ()) (hsize : config.size < indexLimit) :
    ∃ (source : SparseDefinite) (g : Generated Binary64),
      SparseDefinite.create config.size config.density = .ok source ∧
      source.operand σ config.seed = .ok g ∧
      (g.dense.nnz < indexLimit →
        ∃ dataset, generate σ Binary64 config = .ok (.ok dataset) ∧
          dataset.report.outcomes = [(.structural, .passed), (.decodeEquivalence, .passed),
            (.diagonalNonzero, .passed), (.symmetry, .passed)] ∧
          (dataset.operand.rows = config.size ∧ dataset.operand.cols = config.size ∧
            dataset.operand.cells.size = config.size * config.size) ∧
          (dataset.csr.rows = config.size ∧ dataset.csr.cols = config.size) ∧
          dataset.rhs.size = config.size ∧
          g.dense.encode = .ok (.ok dataset.csr) ∧
          dataset.sparsity = .ofNat dataset.csr.nnz / .ofNat (config.size * config.size)) ∧
      (∀ i < config.size, ∀ j < config.size, ∃ x,
        g.dense.get i j = .ok x ∧ g.dense.get j i = .ok x) ∧
      ∀ i < config.size, ∃ x, g.dense.get i i = .ok x ∧ Binary64.le 1 x = true := by
  obtain ⟨_, hpos, -, hcreate⟩ := config.check_eq_ok hcheck
  obtain ⟨hword, operand, g, hoperand, hg, hgenerate⟩ := generate_eq σ Binary64 hcheck
  have hmakes := SparseDefinite.of_operand_eq_ok hg
  refine ⟨_, g, hcreate, hg, fun hnnz => ?_, fun i hi j hj => hmakes.get_symm hi hj,
    fun i hi => hmakes.one_le_diagonal hi⟩
  obtain ⟨hencode, hgate⟩ := hmakes.certify_eq hpos hsize hnnz .conjugateGradient
  rw [hgate] at hgenerate
  obtain ⟨_, hdense⟩ := DenseDefinite.square_of_operand_eq_ok hoperand
  obtain ⟨_, ⟨hrows, hcols, -, -⟩, -⟩ := id hmakes.square
  refine ⟨_, hgenerate, rfl, ⟨hdense.rows_eq, hdense.cols_eq, hdense.size_eq⟩,
    ⟨hrows, hcols⟩, Draw.vector_yields config.size _, hencode, ?_⟩
  show sharedOver g.dense.rows g.dense.cols _ = _
  rw [hrows, hcols]
  exact sharedOver_eq hpos hword

/-- A system of order two, with the words of the usual stream. -/
theorem generate_eq_ok_two :
    let config : ConjugateGradientConfig := ⟨2, 5, oneTenth, 1⟩
    config.check = .ok () ∧
      ∃ (g : Generated Binary64) (dataset : ConjugateGradient Binary64),
        (SparseDefinite.mk 2 oneTenth (by decide)).operand ChaCha 1 = .ok g ∧
        g.dense.nnz < indexLimit ∧ generate ChaCha Binary64 config = .ok (.ok dataset) ∧
        dataset.report.isOk = true ∧ dataset.csr.rows = 2 ∧ dataset.rhs.size = 2 := by
  intro config
  have hcheck : config.check = .ok () := by decide +kernel
  obtain ⟨source, g, hcreate, hg, hdataset, -⟩ := generate_eq_ok ChaCha config hcheck (by decide)
  obtain ⟨hword, -, -, hcreate'⟩ := config.check_eq_ok hcheck
  cases hcreate.symm.trans hcreate'
  have hnnz : g.dense.nnz < indexLimit :=
    Nat.lt_of_le_of_lt (SparseDefinite.of_operand_eq_ok hg).nnz_le (show 2 * 2 < _ by decide)
  obtain ⟨dataset, hgenerate, hreport, -, hshape, hrhs, -⟩ := hdataset hnnz
  refine ⟨hcheck, g, dataset, hg, hnnz, hgenerate, ?_, hshape.1, hrhs⟩
  rw [Report.isOk_iff, hreport]
  simp [Status.error?]

end ConjugateGradient

end SparseDatasets
