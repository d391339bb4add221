import Mathlib.Logic.Function.Basic
import SparseDatasets.Proofs.Configurations
import SparseDatasets.Proofs.Definite
import SparseDatasets.Proofs.Symmetry
import SparseDatasets.Random.ChaCha

/-!
# Matrices from their upper triangles

A symmetric matrix is filled from the entries on and above its diagonal. These may come from a
computation with a state of its own, such as a stream of words or a counter, so it matters which
entries are asked for, in which order, and that none is asked for twice. The two cells that an entry
is stored in belong to it alone. Nothing is asked of the entries as numbers: a NaN is stored on both
sides like any other word, and the check of the symmetry takes two NaNs for the same.

All this needs a matrix that has its cells. Where a word does not count these, some are missing, and
a write of the first row already fails if none is left. No source is made for such an order.

- `RowMajor`, `upperTriangle_pairwise`: the coordinates come row by row.
- `Calls`: the results of a computation that is run for one coordinate after the other.
- `Dense.symmetricM_run`: the calls that are made for a matrix, and what becomes of their results.
- `Dense.symmetricM_of_no_cells`: the first write fails if no cell is left.
- `Dense.Square.checkSymmetry`: the check of the symmetry passes.
- `symmetric_exactly`: **matrices filled from their upper triangles are symmetric to the last bit.**
-/

namespace SparseDatasets

/-! ## The coordinates -/

/-- One coordinate comes before another one, row by row. -/
def RowMajor (c d : Nat × Nat) : Prop := c.1 < d.1 ∨ c.1 = d.1 ∧ c.2 < d.2

/-- Coordinates whose columns ascend in each row come row by row. -/
theorem pairwise_rowMajor {n : Nat} {columns : Nat → List Nat}
    (h : ∀ i, (columns i).Pairwise (· < ·)) :
    ((List.range n).flatMap fun i => (columns i).map fun j => (i, j)).Pairwise RowMajor := by
  rw [List.pairwise_flatMap]
  constructor
  · -- within a row the columns ascend
    intro i _
    rw [List.pairwise_map]
    exact (h i).imp fun hlt => .inr ⟨rfl, hlt⟩
  · -- the rows ascend
    refine List.pairwise_lt_range.imp fun {i k} hik c hc d hd => ?_
    obtain ⟨_, -, rfl⟩ := List.mem_map.mp hc
    obtain ⟨_, -, rfl⟩ := List.mem_map.mp hd
    exact .inl hik

/-- No coordinate comes twice. -/
theorem nodup_of_rowMajor {l : List (Nat × Nat)} (h : l.Pairwise RowMajor) : l.Nodup := by
  refine h.imp fun {c d} h => ?_
  rintro rfl
  rcases h with h | ⟨-, h⟩ <;> exact Nat.lt_irrefl _ h

theorem upperTriangle_pairwise (n : Nat) : (upperTriangle n).Pairwise RowMajor :=
  pairwise_rowMajor fun _ => List.pairwise_lt_range'

/-! ## Calls -/

section Calls

variable {τ α : Type} {entry : Nat → Nat → StateM τ α}

/-- The computation is run for one coordinate after the other, each time in the state that the call
before it has left behind, and gives these results. -/
inductive Calls (entry : Nat → Nat → StateM τ α) : τ → List ((Nat × Nat) × α) → τ → Prop
  | nil (s : τ) : Calls entry s [] s
  | cons {i j : Nat} {x : α} {s s' s'' : τ} {rest : List ((Nat × Nat) × α)} :
    (entry i j).run s = (x, s') → Calls entry s' rest s'' → Calls entry s (((i, j), x) :: rest) s''

/-- Each result is that of a call. -/
theorem Calls.exists_run_eq {s s' : τ} {calls : List ((Nat × Nat) × α)}
    (h : Calls entry s calls s') {c : Nat × Nat} {x : α} (hc : (c, x) ∈ calls) :
    ∃ t, ((entry c.1 c.2).run t).1 = x := by
  induction h with
  | nil => cases hc
  | cons hfirst _ ih =>
    rcases List.mem_cons.mp hc with heq | hc
    · cases heq
      exact ⟨_, congrArg Prod.fst hfirst⟩
    · exact ih hc

/-- One call is made for each of some coordinates, and as these differ the results are those of a
function. -/
theorem exists_calls [Zero α] (entry : Nat → Nat → StateM τ α) {l : List (Nat × Nat)}
    (hl : l.Nodup) (s : τ) :
    ∃ (value : Nat × Nat → α) (s' : τ),
      (l.mapM fun c => entry c.1 c.2).run s = (l.map value, s') ∧
      Calls entry s (l.map fun c => (c, value c)) s' := by
  induction l generalizing s with
  | nil => exact ⟨fun _ => 0, s, rfl, .nil s⟩
  | cons c l ih =>
    rw [List.nodup_cons] at hl
    obtain ⟨value, s', hrun, hcalls⟩ := ih hl.2 ((entry c.1 c.2).run s).2
    generalize hfirst : (entry c.1 c.2).run s = first at hrun hcalls
    obtain ⟨x, t⟩ := first
    have hothers : ∀ d ∈ l, Function.update value c x d = value d := by
      intro d hd
      have hother : d ≠ c := fun hsame => hl.1 (hsame ▸ hd)
      exact Function.update_of_ne hother x value
    refine ⟨Function.update value c x, s', ?_, ?_⟩
    · rw [List.mapM_cons, StateT.run_bind, hfirst, List.map_cons, Function.update_self,
        List.map_congr_left hothers]
      show ((l.mapM fun c => entry c.1 c.2) >>= _).run t = _
      rw [StateT.run_bind, hrun]
      rfl
    · rw [List.map_cons, Function.update_self,
        List.map_congr_left fun d hd => by rw [hothers d hd]]
      exact .cons hfirst hcalls

end Calls

namespace Dense

variable {α : Type} [Element α]

/-! ## What becomes of the results -/

/-- One call is made for each coordinate of the upper triangle, and its result stands on both sides
of the diagonal. No write fails. -/
theorem symmetricM_run {τ : Type} {n : Nat} (hword : n * n < wordLimit)
    (entry : Nat → Nat → StateM τ α) (s : τ) :
    ∃ (value : Nat → Nat → α) (d : Dense α) (s' : τ),
      (symmetricM n entry).run.run s = (.ok d, s') ∧
      Calls entry s ((upperTriangle n).map fun c => (c, value c.1 c.2)) s' ∧ d.Square n value := by
  obtain ⟨value, s', hrun, hcalls⟩ :=
    exists_calls entry (nodup_of_rowMajor (upperTriangle_pairwise n)) s
  refine ⟨fun i j => value (i, j), _, s', ?_, hcalls,
    square_of_triangle n fun i j => value (i, j)⟩
  rw [symmetricM_run_eq hword, StateT.run_bind, hrun]
  show (_, s') = _
  rw [← List.map_prod_left_eq_zip]

/-- The first entry is asked for, but not stored, where no cell is left. -/
theorem symmetricM_of_no_cells {m : Type → Type} [Monad m] [LawfulMonad m] {n : Nat} (hn : 0 < n)
    (hcells : cellCount n n = 0) (entry : Nat → Nat → m α) :
    (symmetricM n entry).run = do
      let _ ← entry 0 0
      return .error .unbacked := by
  obtain ⟨n, rfl⟩ := Nat.exists_eq_succ_of_ne_zero hn.ne'
  have hfirst : ∃ rest, upperTriangle (n + 1) = (0, 0) :: rest := by
    unfold upperTriangle
    rw [List.range_succ_eq_map, List.flatMap_cons, Nat.sub_zero, List.range'_succ, List.map_cons]
    exact ⟨_, rfl⟩
  obtain ⟨rest, hrest⟩ := hfirst
  have hplace : ¬ offset (n + 1) 0 0 <
      (Array.replicate (cellCount (n + 1) (n + 1)) (0 : α)).size := by
    rw [hcells]
    exact Nat.not_lt_zero _
  have hset (x : α) : (zeros (n + 1) (n + 1) : Dense α).set 0 0 x = .error .unbacked := by
    rw [set, if_pos ⟨Nat.succ_pos n, Nat.succ_pos n⟩, zeros, writeCell, dif_neg hplace]
  unfold symmetricM
  rw [hrest, List.foldlM_cons, bind_assoc, run_liftM_bind]
  refine bind_congr fun x => ?_
  rw [bind_assoc, run_liftM_bind_of_error (hset x)]

/-! ## The check of the symmetry -/

/-- Both sides of the diagonal are the same values, and every value reproduces itself. -/
theorem Square.checkSymmetry {n : Nat} {entry : Nat → Nat → α} {d : Dense α}
    (h : d.Square n entry) (hword : n * n < wordLimit) : d.checkSymmetry = .ok (.ok ()) := by
  refine checkSymmetry_eq_ok_iff.mpr ⟨h.cols_eq.trans h.rows_eq.symm, ?_⟩
  rw [h.rows_eq]
  intro i hi j hj _
  have hmirror : d.get j i = .ok (entry (min i j) (max i j)) := by
    rw [h.get_eq hword hj hi, Nat.min_comm, Nat.max_comm]
  exact ⟨_, _, h.get_eq hword hi hj, hmirror, Element.sameValue_refl _⟩

end Dense

/-! ## The two sources -/

/-- The symmetry of what a source generates passes, and its nonzero cells are declared. -/
theorem Generated.Symmetric.checkSymmetry {α : Type} [Element α] {n : Nat} {g : Generated α}
    (h : g.Symmetric n) (hword : n * n < wordLimit) :
    g.dense.checkSymmetry = .ok (.ok ()) ∧ g.support = g.dense.support := by
  obtain ⟨hsupport, entry, hsquare⟩ := h
  exact ⟨hsquare.checkSymmetry hword, hsupport⟩

/-- **Matrices filled from their upper triangles are symmetric to the last bit.** Let a word count
the cells. Whatever the arithmetic and whatever state the entries are computed in, one call is made
for each coordinate on and above the diagonal, row by row, and its result is the value of the two
cells on both sides of the diagonal; there are no other cells, and no write fails. So from any state
of any stream the check of the symmetry accepts what the sources of sparse and of dense operands
generate, and the nonzero cells are those that are declared. -/
theorem symmetric_exactly (α : Type) [Scalar α] :
    (∀ (τ : Type) (n : Nat) (entry : Nat → Nat → StateM τ α) (s : τ), n * n < wordLimit →
      ∃ (value : Nat → Nat → α) (d : Dense α) (s' : τ),
        (Dense.symmetricM n entry).run.run s = (.ok d, s') ∧
        Calls entry s ((upperTriangle n).map fun c => (c, value c.1 c.2)) s' ∧
        ((upperTriangle n).Pairwise RowMajor ∧
          ∀ i j, (i, j) ∈ upperTriangle n ↔ i ≤ j ∧ j < n) ∧
        (d.rows = n ∧ d.cols = n ∧ d.cells.size = n * n) ∧
        ∀ i < n, ∀ j < n, d.cells[i * n + j]? = some (value (min i j) (max i j))) ∧
    (∀ (σ : Type) [WordStream σ] (source : SparseDefinite) (s : σ),
      ∃ (g : Generated α) (s' : σ), source.generate.run.run s = (.ok g, s') ∧
        g.dense.checkSymmetry = .ok (.ok ()) ∧ g.support = g.dense.support) ∧
    ∀ (σ : Type) [WordStream σ] (source : DenseDefinite) (s : σ),
      ∃ (g : Generated α) (s' : σ), source.generate.run.run s = (.ok g, s') ∧
        g.dense.checkSymmetry = .ok (.ok ()) ∧ g.support = g.dense.support := by
  refine ⟨fun τ n entry s hword => ?_, fun σ _ source s => ?_, fun σ _ source s => ?_⟩
  · obtain ⟨value, d, s', hrun, hcalls, hsquare⟩ := Dense.symmetricM_run hword entry s
    exact ⟨value, d, s', hrun, hcalls, ⟨upperTriangle_pairwise n, fun i j => mem_upperTriangle⟩,
      ⟨hsquare.rows_eq, hsquare.cols_eq, hsquare.size_eq⟩, fun i hi j hj => hsquare.cell_eq hi hj⟩
  · obtain ⟨g, hg, hsymmetric⟩ := SparseDefinite.generate_symmetric (α := α) source s
    exact ⟨g, _, Prod.ext hg rfl, hsymmetric.checkSymmetry source.cells_lt⟩
  · obtain ⟨g, hg, hsymmetric⟩ := DenseDefinite.generate_symmetric (α := α) source s
    exact ⟨g, _, Prod.ext hg rfl, hsymmetric.checkSymmetry source.cells_lt⟩

/-- The second of three calls gives a NaN, and a source is made for the order three. -/
theorem symmetric_exactly_nan :
    let count : Nat → Nat → StateM Nat Binary64 := fun _ _ calls =>
      (if calls = 1 then .nan else .ofNat calls, calls + 1)
    let half : Binary64 := ⟨0x3fe0000000000000⟩
    let sparse : SparseDefinite := ⟨3, half, by decide⟩
    let dense : DenseDefinite := ⟨3, by decide⟩
    (∃ d, (Dense.symmetricM 2 count).run.run 0 = (.ok d, 3) ∧ d.cells[1]? = some .nan ∧
      d.cells[2]? = d.cells[1]?) ∧
    SparseDefinite.create 3 half = .ok sparse ∧ DenseDefinite.create 3 = .ok dense ∧
    (∃ (g : Generated Binary64) (s' : ChaCha),
      sparse.generate.run.run (WordStream.ofSeed 7) = (.ok g, s') ∧
        g.dense.checkSymmetry = .ok (.ok ()) ∧ g.support = g.dense.support) ∧
    ∃ (g : Generated Binary64) (s' : ChaCha),
      dense.generate.run.run (WordStream.ofSeed 7) = (.ok g, s') ∧
        g.dense.checkSymmetry = .ok (.ok ()) ∧ g.support = g.dense.support := by
  intro count half sparse dense
  obtain ⟨hfilled, hsparse, hdense⟩ := symmetric_exactly Binary64
  have hdensity : checkDensity half = .ok () := if_pos (by decide +kernel)
  have hcreate : SparseDefinite.create 3 half = .ok sparse :=
    SparseDefinite.create_eq_ok rfl hdensity
  have hcreate' : DenseDefinite.create 3 = .ok dense := DenseDefinite.create_eq_ok rfl
  refine ⟨?_, hcreate, hcreate', hsparse ChaCha sparse (WordStream.ofSeed 7),
    hdense ChaCha dense (WordStream.ofSeed 7)⟩
  obtain ⟨value, d, s', hrun, -, -, -, hcell⟩ := hfilled Nat 2 count 0 (by decide)
  have hcount : (Dense.symmetricM 2 count).run.run 0 =
      (.ok ⟨2, 2, #[.ofNat 0, .nan, .nan, .ofNat 2]⟩, 3) := rfl
  have hmirror := (hcell 1 (by decide) 0 (by decide)).trans
    (hcell 0 (by decide) 1 (by decide)).symm
  obtain ⟨hd, rfl⟩ := Prod.mk.inj (hrun.symm.trans hcount)
  cases hd
  exact ⟨_, hrun, rfl, hmirror⟩

/-- A word takes the cells of a matrix of the order `2 ^ 32` for none: the first entry is asked for,
and there is no matrix to store it in. -/
theorem symmetricM_without_cells :
    let count : Nat → Nat → StateM Nat Binary64 := fun _ _ calls => (.ofNat calls, calls + 1)
    (Dense.symmetricM 4294967296 count).run.run 0 = (.error .unbacked, 1) ∧
    ¬ ∃ (d : Dense Binary64) (s' : Nat),
      (Dense.symmetricM 4294967296 count).run.run 0 = (.ok d, s') := by
  intro count
  have hfault : (Dense.symmetricM 4294967296 count).run.run 0 = (.error .unbacked, 1) := by
    rw [Dense.symmetricM_of_no_cells (by decide) (by decide)]
    rfl
  refine ⟨hfault, ?_⟩
  rintro ⟨d, s', hrun⟩
  cases hfault.symm.trans hrun

end SparseDatasets
