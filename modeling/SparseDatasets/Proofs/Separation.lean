import SparseDatasets.Proofs.Configurations
import SparseDatasets.Proofs.Scattering
import SparseDatasets.Proofs.ConjugateGradient

/-!
# Streams of their own

A matrix is drawn from a stream that is split off for it, and what is drawn from there leaves the
stream it was split off from alone. So a vector depends on the seed and on its length only,
whatever the matrices beside it are and however many words they take, and a shorter vector is the
front of a longer one.

- `Draw.mapM_prefix`, `Draw.vector_prefix`: drawing longer only adds to what is drawn.
- `SparseDefinite.generate_congr`: densities that are equal as numbers make the same operand.
- `MatrixVector.input_eq`, `ConjugateGradient.parts_eq`: which stream each part of a dataset comes
  from.
- `parts_eq_of_seed_eq`: **what a part of a dataset depends on.**
-/

namespace SparseDatasets

/-! ## Longer and shorter draws -/

namespace Draw

/-- What is drawn for the first elements does not depend on the elements behind them. -/
theorem mapM_prefix {σ α β : Type} (f : α → Draw σ β) (l l' : List α) (s : σ) :
    ((l.mapM f).run s).1 <+: (((l ++ l').mapM f).run s).1 := by
  rw [List.mapM_append]
  exact List.prefix_append _ _

variable {σ : Type} [WordStream σ]

/-- A shorter vector is the front of a longer one from the same stream. -/
theorem vector_prefix {α : Type} [Scalar α] {m n : Nat} (h : m ≤ n) (s : σ) :
    ((vector (α := α) m).run s).1.toList <+: ((vector (α := α) n).run s).1.toList := by
  obtain ⟨k, rfl⟩ := Nat.exists_eq_add_of_le h
  have hprefix := mapM_prefix (fun _ => (unit : Draw σ α)) (List.range m)
    ((List.range k).map (m + ·)) s
  rw [← List.range_add] at hprefix
  exact hprefix

end Draw

/-! ## Equal densities -/

theorem Binary64.eq_of_isZero {x : Binary64} (h : x.isZero = true) :
    x = ⟨0⟩ ∨ x = ⟨0x8000000000000000⟩ := by
  have hword : x.bits.toNat < 18446744073709551616 := x.bits.toNat_lt
  have hmagnitude : x.bits.toNat % 9223372036854775808 = 0 := beq_iff_eq.mp h
  obtain hbits | hbits : x.bits.toNat = 0 ∨ x.bits.toNat = 9223372036854775808 := by omega
  · exact .inl (bits_inj.mp (UInt64.toNat_inj.mp hbits))
  · exact .inr (bits_inj.mp (UInt64.toNat_inj.mp hbits))

section

variable {σ α : Type} [WordStream σ] [Scalar α]

/-- No word is below the threshold of either zero. -/
theorem Draw.bernoulli_eq_of_isZero {p : Binary64} (h : p.isZero = true) :
    (bernoulli p : Draw σ Bool) = bernoulli 0 := by
  have hthresholds : ∀ q : Binary64, (q = ⟨0⟩ ∨ q = ⟨0x8000000000000000⟩) →
      q.equal 1 = false ∧ (q * ⟨0x43f0000000000000⟩).toWord = 0 := by
    rintro q (rfl | rfl)
    · decide +kernel
    · decide +kernel
  obtain ⟨hone, hthreshold⟩ := hthresholds p (Binary64.eq_of_isZero h)
  obtain ⟨hone', hthreshold'⟩ := hthresholds 0 (.inl rfl)
  simp only [bernoulli, hone, hone', hthreshold, hthreshold']

/-- Chances that are equal as numbers are met by the same words. -/
theorem Draw.bernoulli_congr {p q : Binary64} (h : p.equal q = true) :
    (bernoulli p : Draw σ Bool) = bernoulli q := by
  obtain ⟨-, rfl | ⟨hp, hq⟩⟩ := (Binary64.equal_eq_true_iff p q).mp h
  · rfl
  · rw [bernoulli_eq_of_isZero hp, bernoulli_eq_of_isZero hq]

/-- Densities that are equal as numbers make the same operand. -/
theorem SparseDefinite.generate_congr {n : Nat} {p q : Binary64} (h : p.equal q = true)
    (hword : n * n < wordLimit) :
    (SparseDefinite.mk n p hword).generate =
      ((SparseDefinite.mk n q hword).generate : ExceptT AccessFault (Draw σ) (Generated α)) := by
  have hentry : (SparseDefinite.mk n p hword).factorEntry =
      ((SparseDefinite.mk n q hword).factorEntry : Nat → Nat → Draw σ α) := by
    unfold factorEntry
    simp only [Draw.bernoulli_congr h]
  simp only [generate, factor, hentry]

/-! ## Where the parts of a dataset come from -/

/-- The vector is drawn from the stream that the one of the matrix was split off from. -/
theorem MatrixVector.input_eq {sample : Draw.Sampler σ} {config : MatrixVectorConfig}
    {dataset : MatrixVector α} (h : generateWith α sample config = .ok (.ok dataset)) :
    dataset.input = ((Draw.vector config.cols).run
      ((Draw.child : Draw σ σ).run (WordStream.ofSeed config.seed)).2).1 := by
  unfold generateWith at h
  split at h
  · cases h
  · cases h
  · obtain ⟨outcome, -, h⟩ := bind_eq_ok.mp h
    cases outcome with
    | error error => cases h
    | ok certified =>
      cases h
      rfl

/-- Both operands have streams of their own, and the right-hand side is drawn from the one that
these were split off from. -/
theorem ConjugateGradient.parts_eq {config : ConjugateGradientConfig}
    {dataset : ConjugateGradient α} (h : generate σ α config = .ok (.ok dataset)) :
    ∃ (hword : config.size * config.size < wordLimit) (operand g : Generated α),
      (DenseDefinite.mk config.size hword).operand σ config.seed = .ok operand ∧
      (SparseDefinite.mk config.size config.density hword).operand σ config.seed = .ok g ∧
      dataset.operand = operand.dense ∧
      dataset.rhs = ((Draw.vector config.size).run
        ((Draw.children : Draw σ _).run (WordStream.ofSeed config.seed)).2).1 ∧
      ∃ certified, certify (config.size, config.size) g .conjugateGradient =
          .ok (.ok certified) ∧
        dataset.csr = certified.csr := by
  have hcheck : config.check = .ok () := by
    cases hcheck : config.check with
    | ok => rfl
    | error error =>
      rw [generate, hcheck] at h
      cases h
  obtain ⟨hword, operand, g, hoperand, hg, hgenerate⟩ := generate_eq σ α hcheck
  refine ⟨hword, operand, g, hoperand, hg, ?_⟩
  rcases hgate : certify (config.size, config.size) g .conjugateGradient with
    fault | error | certified
  all_goals
    rw [h, hgate] at hgenerate
    cases hgenerate
  exact ⟨rfl, rfl, certified, rfl, rfl⟩

end

/-! ## What the parts of a dataset depend on -/

/-- **What a part of a dataset depends on.** Two vectors drawn for the same seed agree as far as the
shorter one goes, whatever the matrices beside them are, and a dense operand depends on nothing but
the seed and the order. A sparse operand depends on the density as well, as a number, but not on the
steps. Bits are meant, not numbers: doubles that are equal here are the same word. None of this asks
anything of the words, or of how many of them a sampler takes. -/
theorem parts_eq_of_seed_eq (σ α : Type) [WordStream σ] [Scalar α] :
    (∀ (sample sample' : Draw.Sampler σ) (config config' : MatrixVectorConfig)
        (dataset dataset' : MatrixVector α), config.seed = config'.seed →
      MatrixVector.generateWith α sample config = .ok (.ok dataset) →
      MatrixVector.generateWith α sample' config' = .ok (.ok dataset') →
      dataset.input.size = config.cols ∧
        (config.cols ≤ config'.cols → dataset.input.toList <+: dataset'.input.toList) ∧
        (config.cols = config'.cols → dataset.input = dataset'.input)) ∧
    ∀ (config config' : ConjugateGradientConfig) (dataset dataset' : ConjugateGradient α),
      config.seed = config'.seed →
      ConjugateGradient.generate σ α config = .ok (.ok dataset) →
      ConjugateGradient.generate σ α config' = .ok (.ok dataset') →
      dataset.rhs.size = config.size ∧
        (config.size ≤ config'.size → dataset.rhs.toList <+: dataset'.rhs.toList) ∧
        (config.size = config'.size →
          dataset.rhs = dataset'.rhs ∧ dataset.operand = dataset'.operand) ∧
        (config.size = config'.size → config.density.equal config'.density = true →
          dataset.csr = dataset'.csr) := by
  constructor
  · intro sample sample' config config' dataset dataset' hseed h h'
    rw [MatrixVector.input_eq h, MatrixVector.input_eq h', hseed]
    refine ⟨Draw.vector_yields _ _, ?_, ?_⟩
    · intro hcols
      exact Draw.vector_prefix hcols _
    · intro hcols
      rw [hcols]
  · intro config config' dataset dataset' hseed h h'
    obtain ⟨hword, operand, g, hdrawn, hg, hoperand, hrhs, certified, hgate, hcsr⟩ :=
      ConjugateGradient.parts_eq h
    obtain ⟨hword', operand', g', hdrawn', hg', hoperand', hrhs', certified', hgate', hcsr'⟩ :=
      ConjugateGradient.parts_eq h'
    rw [hoperand, hoperand', hrhs, hrhs', hseed]
    refine ⟨Draw.vector_yields _ _, ?_, ?_, ?_⟩
    · intro hsize
      exact Draw.vector_prefix hsize _
    · intro hsize
      simp only [hsize, hseed, hdrawn', Except.ok.injEq] at hdrawn
      rw [hsize, hdrawn]
      exact ⟨rfl, rfl⟩
    · -- the gate is given the same matrix, so it lets the same encoding pass
      intro hsize hdensity
      simp only [SparseDefinite.operand, hsize, hseed, SparseDefinite.generate_congr hdensity]
        at hg
      cases hg.symm.trans hg'
      rw [hsize, hgate'] at hgate
      cases hgate
      rw [hcsr, hcsr']

/-- Matrices of different shapes and densities beside vectors of lengths two and five, and sparse
operands for zeros of either sign and for different steps. -/
theorem parts_eq_of_seed_eq_two :
    let short : MatrixVectorConfig := ⟨2, 2, ⟨0x3fe0000000000000⟩, 7⟩
    let long : MatrixVectorConfig := ⟨3, 5, oneTenth, 7⟩
    let positive : ConjugateGradientConfig := ⟨2, 5, ⟨0⟩, 1⟩
    let negative : ConjugateGradientConfig := ⟨2, 9, ⟨0x8000000000000000⟩, 1⟩
    (∃ dataset dataset', MatrixVector.generate ChaCha Binary64 short = .ok (.ok dataset) ∧
      MatrixVector.generate ChaCha Binary64 long = .ok (.ok dataset') ∧
      dataset.input.size = 2 ∧ dataset.input.toList <+: dataset'.input.toList) ∧
    ∃ dataset dataset', ConjugateGradient.generate ChaCha Binary64 positive = .ok (.ok dataset) ∧
      ConjugateGradient.generate ChaCha Binary64 negative = .ok (.ok dataset') ∧
      dataset.rhs.toList <+: dataset'.rhs.toList ∧ dataset.operand = dataset'.operand ∧
      dataset.csr = dataset'.csr := by
  intro short long positive negative
  obtain ⟨hvectors, hsystems⟩ := parts_eq_of_seed_eq ChaCha Binary64
  constructor
  · obtain ⟨dataset, h⟩ := MatrixVector.exists_dataset (σ := ChaCha) short
      ⟨by decide, by decide, by decide⟩ (by decide)
      (Binary64.between_iff.mp (by decide +kernel)) (by decide) (by decide +kernel)
    obtain ⟨dataset', h'⟩ := MatrixVector.exists_dataset (σ := ChaCha) long
      ⟨by decide, by decide, by decide⟩ (by decide)
      (Binary64.between_iff.mp (by decide +kernel)) (by decide) (by decide +kernel)
    obtain ⟨hsize, hprefix, -⟩ := hvectors _ _ short long dataset dataset' rfl h h'
    exact ⟨dataset, dataset', h, h', hsize, hprefix (by decide)⟩
  · obtain ⟨dataset, h⟩ := ConjugateGradient.exists_dataset (σ := ChaCha) positive
      (by decide +kernel) (by decide)
    obtain ⟨dataset', h'⟩ := ConjugateGradient.exists_dataset (σ := ChaCha) negative
      (by decide +kernel) (by decide)
    obtain ⟨-, hprefix, hparts, hsparse⟩ := hsystems positive negative dataset dataset' rfl h h'
    exact ⟨dataset, dataset', h, h', hprefix (by decide), (hparts rfl).2,
      hsparse rfl (by decide)⟩

end SparseDatasets
