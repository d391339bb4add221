import SparseDatasets.Proofs.Scattering
import SparseDatasets.Proofs.Totality

/-!
# Supports that are declared unseen

A scattered matrix is declared before it is filled, and nobody looks at its cells again. What is
declared is still what is there: no position is picked twice, so no number overwrites another one,
and no number that is written is a zero, however large it is and however it is rounded. Nor does a
step on the way leave the bounds of the matrix or of a word.

- `Binary64.isZero_ofNat`: the nearest double of a natural number that is not zero is not zero.
- `Scattered.Fills.support_eq`: the cells that are declared are the nonzero ones.
- `Guarded.generateWith`: the same matrix, with a guard at each step.
- `Scattered.generateWith_support`: **every matrix that a source generates has the support that is
  declared for it.**
-/

namespace SparseDatasets

/-! ## Numbers that are written -/

namespace Binary64

theorem isZero_of_bits {x : Binary64} (hpos : 0 < x.bits.toNat)
    (hle : x.bits.toNat ≤ BinaryLayout.double.infinity) : Element.isZero x = false := by
  have hinfinity : BinaryLayout.double.infinity = 9218868437227405312 := by decide
  have hnonzero : x.isZero = false := by
    show (x.bits.toNat % 9223372036854775808 == 0) = false
    rw [beq_eq_false_iff_ne]
    omega
  rw [← Bool.not_eq_true]
  intro hequal
  obtain ⟨-, rfl | ⟨hzero, -⟩⟩ := (equal_eq_true_iff x 0).mp hequal
  · exact absurd hpos (by decide)
  · rw [hnonzero] at hzero
    cases hzero

/-- A number that is not zero is nearer to another double than to zero. -/
theorem isZero_ofNat {n : Nat} (hn : 0 < n) : Element.isZero (ofNat n) = false := by
  obtain ⟨q, hq, num, den, -, -, hnearest⟩ := nearest_eq hn Nat.one_pos
  have hinfinity : BinaryLayout.double.infinity = 9218868437227405312 := by decide
  -- the step around the number is not the least, for less than one would be in it
  have hstep : -1074 < q := by
    rcases hq.least.lt_or_eq with hlt | rfl
    · exact hlt
    · have hsmall : (n : ℚ) / (1 : Nat) < 1 := hq.lt.trans_le
        (zpow_le_one_of_nonpos₀ one_le_two (by decide))
      rw [Nat.cast_one, div_one] at hsmall
      exact absurd hsmall (not_lt.mpr (by exact_mod_cast hn))
  have hbits : (ofNat n).bits.toNat = BinaryLayout.double.nearest n 1 := by
    have hword : (ofNat n).bits = (0 + BinaryLayout.double.nearest n 1).toUInt64 := rfl
    rw [hword, Nat.toUInt64, UInt64.toNat_ofNat', Nat.mod_eq_of_lt, Nat.zero_add]
    omega
  refine isZero_of_bits ?_ ?_ <;> omega

end Binary64

/-! ## What is declared -/

namespace Scattered

variable {source : Scattered} {g : Generated Binary64}

/-- A position that is declared holds the number of its slot. -/
theorem Fills.exists_cell (h : source.Fills g) {p : Nat} (hp : p ∈ g.support.positions.toList) :
    ∃ k, g.dense.cells[p]? = some (.ofNat (k + 1)) := by
  obtain ⟨k, hk⟩ := List.mem_iff_getElem?.mp hp
  exact ⟨k, h.cell k p hk⟩

/-- The cells that are declared are the nonzero ones. -/
theorem Fills.support_eq (h : source.Fills g) : g.support = g.dense.support := by
  -- both lists ascend, so it is enough that they have the same members
  have hlist : g.support.positions.toList = g.dense.support.positions.toList := by
    refine h.ascending.eq_of_mem_iff g.dense.support_pairwise fun p => ?_
    rw [Dense.mem_support]
    constructor
    · intro hp
      obtain ⟨k, hk⟩ := h.exists_cell hp
      exact ⟨_, hk, Binary64.isZero_ofNat (Nat.succ_pos k)⟩
    · rintro ⟨x, hx, hnonzero⟩
      exact Array.mem_toList_iff.mpr (h.covered p x hx hnonzero)
  exact congrArg Support.mk (Array.toList_inj.mp hlist)

/-- A cell that is not declared holds the zero that it was made with. -/
theorem Fills.empty_cell (h : source.Fills g) {p : Nat} (hp : p < source.rows * source.cols)
    (hnew : p ∉ g.support.positions.toList) : g.dense.cells[p]? = some 0 := by
  have hlt : p < g.dense.cells.size := h.size_eq ▸ hp
  rw [Array.getElem?_eq_getElem hlt, h.empty p hnew _ (Array.getElem?_eq_getElem hlt)]

end Scattered

/-! ## Generating with guards -/

namespace Guarded

variable {α δ : Type} [Scalar α]

/-- Writes the number of a slot at a position. -/
def writeNumber (grid : Array α) (entry : Nat × Nat) : Guarded δ (Array α) := do
  fits (entry.2 + 1)
  write grid entry.1 (Scalar.ofNat (entry.2 + 1))

/-- The matrix of some positions. No more of them can be asked for than there are cells. -/
def place (source : Scattered) (positions : List Nat) : Guarded δ (Generated α) := do
  fits (source.rows * source.cols)
  let _ ← sub (source.rows * source.cols) source.count
  let cells ← positions.zipIdx.foldlM writeNumber (Array.replicate (source.rows * source.cols) 0)
  return ⟨⟨source.rows, source.cols, cells⟩, ⟨positions.toArray⟩⟩

/-- There are no defects to report, so nothing but a fault can stop it. -/
def generateWith {σ : Type} (source : Scattered) (sample : Draw.Sampler σ) :
    Draw σ (Guarded Empty (Generated α)) := do
  let picked ← sample (source.rows * source.cols) source.count
  return place source picked.mergeSort

theorem writeNumbers_eq {f : Array α → Nat × Nat → Array α}
    (hf : ∀ grid cell, f grid cell = grid.setIfInBounds cell.1 (Scalar.ofNat (cell.2 + 1)))
    {writes : List (Nat × Nat)} {grid : Array α}
    (h : ∀ cell ∈ writes, cell.1 < grid.size ∧ cell.2 + 1 < wordLimit) :
    (writes.foldlM writeNumber grid : Guarded δ (Array α)) = .ok (writes.foldl f grid) := by
  induction writes generalizing grid with
  | nil => rfl
  | cons cell writes ih =>
    obtain ⟨hplace, hword⟩ := h cell List.mem_cons_self
    have hfirst : (writeNumber grid cell : Guarded δ (Array α)) = .ok (f grid cell) := by
      rw [writeNumber, fits_eq hword, ok_bind, write_eq hplace, hf, Array.setIfInBounds,
        dif_pos hplace]
    rw [List.foldlM_cons, hfirst, ok_bind, List.foldl_cons]
    refine ih fun other hother => ?_
    rw [hf, Array.size_setIfInBounds]
    exact h other (List.mem_cons_of_mem _ hother)

/-- On a selection no guard fails. -/
theorem place_eq {source : Scattered} {positions : List Nat}
    (hword : source.rows * source.cols < wordLimit)
    (h : Selection (source.rows * source.cols) source.count positions) :
    (place source positions : Guarded δ (Generated α)) =
      .ok ⟨⟨source.rows, source.cols, Scattered.scatter (source.rows * source.cols) positions⟩,
        ⟨positions.toArray⟩⟩ := by
  have hcount : source.count ≤ source.rows * source.cols := Nat.min_le_right _ _
  have hwrites : ∀ cell ∈ positions.zipIdx,
      cell.1 < (Array.replicate (source.rows * source.cols) (0 : α)).size ∧
        cell.2 + 1 < wordLimit := by
    rintro ⟨p, k⟩ hcell
    have hget := List.mk_mem_zipIdx_iff_getElem?.mp hcell
    obtain ⟨hk, -⟩ := List.getElem?_eq_some_iff.mp hget
    have hp := h.lt p (List.mem_of_getElem? hget)
    rw [h.length_eq] at hk
    rw [Array.size_replicate]
    exact ⟨hp, by dsimp only; omega⟩
  rw [place, fits_eq hword, ok_bind, sub_eq hcount, ok_bind,
    writeNumbers_eq (fun _ _ => rfl) hwrites]
  rfl

/-- Whatever the sampler picks, no guard fails. -/
theorem generateWith_eq {σ : Type} {sample : Draw.Sampler σ} (hsample : Draw.Samples sample)
    {source : Scattered} (hword : source.rows * source.cols < wordLimit) :
    (generateWith source sample : Draw σ (Guarded Empty (Generated α))) =
      Except.ok <$> source.generateWith sample := by
  funext s
  have hcount : source.count ≤ source.rows * source.cols := Nat.min_le_right _ _
  have hplace := place_eq (α := α) (δ := Empty) hword (hsample hcount s).mergeSort
  exact Prod.ext hplace rfl

end Guarded

/-! ## Every call of a source -/

namespace Draw

/-- Results that are changed one by one, or all of them at the end. -/
theorem mapM_map {σ α β γ : Type} (f : β → γ) (draw : α → Draw σ β) (l : List α) :
    (l.mapM fun x => f <$> draw x) = List.map f <$> l.mapM draw := by
  induction l with
  | nil => rfl
  | cons x l ih => simp only [List.mapM_cons, ih, map_bind, bind_map_left, map_pure, List.map_cons]

/-- What a draw yields, all calls of it do. -/
theorem Yields.calls {σ β : Type} {P : β → Prop} {draw : Draw σ β} (h : Yields P draw) (n : Nat) :
    Yields (fun made => made.length = n ∧ ∀ x ∈ made, P x) ((List.range n).mapM fun _ => draw) := by
  intro s
  have hmade := Yields.mapM (R := fun _ => P) (l := List.range n) (fun _ _ => h) s
  refine ⟨by rw [← hmade.length_eq, List.length_range], fun x hx => ?_⟩
  obtain ⟨i, hi, rfl⟩ := List.mem_iff_getElem.mp hx
  exact hmade.get (hmade.length_eq ▸ hi) hi

end Draw

namespace Scattered

/-- A source that is made has the shape and the density that were asked for, and a word counts its
cells. -/
theorem of_create_eq_ok {rows cols : Nat} {density : Binary64} {source : Scattered}
    (h : create rows cols density = .ok source) :
    source = ⟨rows, cols, density⟩ ∧ rows * cols < wordLimit := by
  obtain ⟨_, hdimensions, h⟩ := bind_eq_ok.mp h
  obtain ⟨_, -, h⟩ := bind_eq_ok.mp h
  exact ⟨(Except.ok.inj h).symm, (of_checkDimensions_eq_ok hdimensions).2.2⟩

/-- **Every matrix that a source generates has the support that is declared for it.** For all
dimensions and densities that a source is made from, from any state of any stream and with any
sampler that picks distinct cells: the first call and all that follow it come to an end without a
fault. Each of them gives a matrix of all the cells and declares as many of these as the density
asks for, ascending, at most all of them. They are the nonzero ones: the cell of slot `k` holds the
double nearest to `k + 1`, which is `k + 1` itself up to fifty-three digits, and any other cell the
positive zero. -/
theorem generateWith_support {σ : Type} {sample : Draw.Sampler σ} (hsample : Draw.Samples sample)
    {rows cols : Nat} {density : Binary64} {source : Scattered}
    (hcreate : create rows cols density = .ok source) (calls : Nat) (s : σ) :
    ∃ (made : List (Generated Binary64)) (s' : σ),
      ((List.range calls).mapM fun _ => source.generateWith sample).run s = (made, s') ∧
      ((List.range calls).mapM fun _ => Guarded.generateWith source sample).run s =
        (made.map .ok, s') ∧
      made.length = calls ∧
      ∀ g ∈ made,
        (g.dense.rows = rows ∧ g.dense.cols = cols ∧ g.dense.cells.size = rows * cols) ∧
        g.support.positions.toList.Pairwise (· < ·) ∧
        g.support.positions.size = min source.target (rows * cols) ∧
        (∀ p ∈ g.support.positions, p < rows * cols) ∧
        g.support = g.dense.support ∧
        (∀ k p, g.support.positions[k]? = some p →
          g.dense.cells[p]? = some (.ofNat (k + 1)) ∧
          (k + 1 < 2 ^ 53 → (Binary64.ofNat (k + 1)).rational? = some ((k + 1 : Nat) : ℚ))) ∧
        ∀ p < rows * cols, p ∉ g.support.positions → g.dense.cells[p]? = some 0 := by
  obtain ⟨rfl, hword⟩ := of_create_eq_ok hcreate
  let draw : Draw σ (Generated Binary64) := generateWith ⟨rows, cols, density⟩ sample
  let run := ((List.range calls).mapM fun _ => draw).run s
  have hfills : Draw.Yields (Fills ⟨rows, cols, density⟩) draw := generateWith_yields hsample _
  obtain ⟨hlength, hmade⟩ : run.1.length = calls ∧ ∀ g ∈ run.1, Fills ⟨rows, cols, density⟩ g :=
    hfills.calls calls s
  have hguarded : Guarded.generateWith ⟨rows, cols, density⟩ sample = Except.ok <$> draw :=
    Guarded.generateWith_eq hsample hword
  refine ⟨run.1, run.2, rfl, ?_, hlength, fun g hg => ?_⟩
  · simp only [hguarded, Draw.mapM_map]
    rfl
  · have h := hmade g hg
    refine ⟨⟨h.rows_eq, h.cols_eq, h.size_eq⟩, h.ascending, h.length_eq, fun p hp => ?_,
      h.support_eq, fun k p hk => ?_, fun p hp hnew => ?_⟩
    · exact h.inside p (Array.mem_toList_iff.mpr hp)
    · exact ⟨h.cell k p (by rwa [Array.getElem?_toList]), Binary64.rational?_ofNat⟩
    · exact h.empty_cell hp (mt Array.mem_toList_iff.mp hnew)

/-- Two calls of a source that fills half of four cells, from the first words of a seed. -/
theorem generateWith_support_half :
    let source : Scattered := ⟨2, 2, ⟨0x3fe0000000000000⟩⟩
    Draw.Samples (Draw.subset : Draw.Sampler ChaCha) ∧
      create 2 2 ⟨0x3fe0000000000000⟩ = .ok source ∧
      ∃ (first second : Generated Binary64) (s' : ChaCha),
        ((List.range 2).mapM fun _ => source.generateWith Draw.subset).run (WordStream.ofSeed 7) =
          ([first, second], s') ∧
        (first.support.positions.size = 2 ∧ first.support = first.dense.support) ∧
        second.support.positions.size = 2 ∧ second.support = second.dense.support := by
  intro source
  have hsamples : Draw.Samples (Draw.subset : Draw.Sampler ChaCha) := Draw.subset_samples
  have hcreate : create 2 2 ⟨0x3fe0000000000000⟩ = .ok source := by
    rw [create, checkDimensions, if_neg (by decide), ok_bind, checkDensity,
      if_pos (by decide +kernel)]
    rfl
  refine ⟨hsamples, hcreate, ?_⟩
  obtain ⟨made, s', hrun, -, hlength, hmade⟩ :=
    generateWith_support hsamples hcreate 2 (WordStream.ofSeed 7)
  have hcount : min source.target (2 * 2) = 2 := by decide +kernel
  obtain ⟨first, second, rfl⟩ := List.length_eq_two.mp hlength
  obtain ⟨-, -, hsize, -, hsupport, -⟩ := hmade first (by simp)
  obtain ⟨-, -, hsize', -, hsupport', -⟩ := hmade second (by simp)
  exact ⟨first, second, s', hrun, ⟨hsize.trans hcount, hsupport⟩, hsize'.trans hcount, hsupport'⟩

end Scattered

end SparseDatasets
