import Mathlib.Data.List.Sort
import Mathlib.Data.List.Perm.Subperm
import SparseDatasets.Proofs.Draws

/-!
# Distinct positions

A sampler has to give as many positions as it is asked for, no two of them the
same and all of them below the length. Each of the three ways does for a reason of
its own: swaps leave a permutation of all positions, a bound that grows by one is
itself a position not yet drawn, and a mark is set once.

- `Selection`: distinct positions below a length.
- `Draw.Samples`: what a sampler is for.
- `Draw.bySwapping_yields`, `Draw.byReplacing_yields`, `Draw.byMarking_yields`: the three ways.
- `Draw.subset_samples`: whichever of them is the cheapest.
-/

namespace SparseDatasets

/-- Distinct positions below a length, in any order. -/
structure Selection (length amount : Nat) (positions : List Nat) : Prop where
  length_eq : positions.length = amount
  nodup : positions.Nodup
  lt : ∀ p ∈ positions, p < length

/-- A sampler gives a selection from any state of any stream. -/
def Draw.Samples {σ : Type} (sample : Draw.Sampler σ) : Prop :=
  ∀ {length amount : Nat}, amount ≤ length →
    Draw.Yields (Selection length amount) (sample length amount)

namespace Selection

variable {length amount : Nat} {positions : List Nat}

theorem nil (length : Nat) : Selection length 0 [] := ⟨rfl, List.nodup_nil, by simp⟩

/-- The front of a permutation of all positions is a selection. -/
theorem of_perm {all : List Nat} (h : amount ≤ length) (hperm : all.Perm (List.range length)) :
    Selection length amount (all.take amount) where
  length_eq := by
    rw [List.length_take, hperm.length_eq, List.length_range]
    exact Nat.min_eq_left h
  nodup := (hperm.nodup_iff.mpr List.nodup_range).sublist (List.take_sublist _ _)
  lt p hp := List.mem_range.mp (hperm.mem_iff.mp (List.mem_of_mem_take hp))

/-- One more position. -/
theorem cons {p : Nat} (h : Selection length amount positions) (hp : p < length)
    (hnew : p ∉ positions) : Selection length (amount + 1) (p :: positions) where
  length_eq := by rw [List.length_cons, h.length_eq]
  nodup := List.nodup_cons.mpr ⟨hnew, h.nodup⟩
  lt := by
    intro q hq
    rcases List.mem_cons.mp hq with rfl | hq
    · exact hp
    · exact h.lt q hq

theorem mono {length' : Nat} (h : Selection length amount positions) (hle : length ≤ length') :
    Selection length' amount positions :=
  ⟨h.length_eq, h.nodup, fun p hp => Nat.lt_of_lt_of_le (h.lt p hp) hle⟩

/-- A selection in ascending order. -/
theorem mergeSort (h : Selection length amount positions) :
    Selection length amount positions.mergeSort where
  length_eq := by rw [List.length_mergeSort, h.length_eq]
  nodup := (List.mergeSort_perm _ _).nodup_iff.mpr h.nodup
  lt p hp := h.lt p (List.mem_mergeSort.mp hp)

theorem mergeSort_pairwise (h : Selection length amount positions) :
    positions.mergeSort.Pairwise (· < ·) := by
  have hsorted : positions.mergeSort.Pairwise (· ≤ ·) := List.pairwise_mergeSort' (· ≤ ·) positions
  exact hsorted.imp₂ (fun p q hle hne => Nat.lt_of_le_of_ne hle hne) h.mergeSort.nodup

/-- A selection of fewer positions leaves one out. -/
theorem exists_not_mem (h : Selection length amount positions) (hlt : amount < length) :
    ∃ p < length, p ∉ positions := by
  by_contra hall
  have hsub : List.range length ⊆ positions := by
    intro p hp
    by_contra hnew
    exact hall ⟨p, List.mem_range.mp hp, hnew⟩
  have hle := (List.nodup_range.subperm hsub).length_le
  rw [List.length_range, h.length_eq] at hle
  omega

end Selection

namespace Draw

variable {σ : Type} [WordStream σ] {length amount : Nat}

/-! ## Swapping -/

theorem swapIfInBounds_perm {α : Type} (xs : Array α) (i j : Nat) :
    (xs.swapIfInBounds i j).toList.Perm xs.toList := by
  unfold Array.swapIfInBounds
  split
  · split
    · exact (Array.swap_perm _ _).toList
    · exact .refl _
  · exact .refl _

/-- Swaps leave a permutation of all positions. -/
theorem bySwapping_yields (h : amount ≤ length) :
    Yields (Selection length amount) (bySwapping length amount : Draw σ (List Nat)) := by
  unfold bySwapping
  refine Yields.bind (P := fun all : Array Nat => all.toList.Perm (List.range length)) ?_
    fun all hperm => .pure ?_
  · refine Yields.foldlM_range
      (I := fun _ (all : Array Nat) => all.toList.Perm (List.range length)) ?_
      fun i all _ hperm => .bind (.trivial _) fun j _ => .pure ?_
    · rw [Array.toList_range]
    · exact (swapIfInBounds_perm _ _ _).trans hperm
  · have hfront : (all.extract 0 amount).toList = all.toList.take amount := by simp
    rw [hfront]
    exact .of_perm h hperm

/-! ## Replacing -/

/-- What was drawn up to and with a bound is new, or the bound itself is. -/
theorem selection_replacing {k : Nat} {drawn : List Nat} {t : Nat}
    (h : Selection k amount drawn) (ht : t < k + 1) :
    Selection (k + 1) (amount + 1) ((if drawn.contains t then k else t) :: drawn) := by
  by_cases hmem : t ∈ drawn
  · rw [if_pos (List.contains_iff_mem.mpr hmem)]
    exact (h.mono (Nat.le_succ k)).cons (Nat.lt_succ_self k) fun hk =>
      Nat.lt_irrefl k (h.lt k hk)
  · rw [if_neg (List.contains_iff_mem.not.mpr hmem)]
    exact (h.mono (Nat.le_succ k)).cons ht hmem

/-- The bound grows with the number of positions drawn. -/
theorem byReplacing_yields (h : amount ≤ length) :
    Yields (Selection length amount) (byReplacing length amount : Draw σ (List Nat)) := by
  unfold byReplacing
  obtain ⟨start, rfl⟩ := Nat.exists_eq_add_of_le' h
  rw [Nat.add_sub_cancel]
  refine Yields.bind (P := Selection (start + amount) amount) ?_ fun drawn hdrawn => ?_
  · refine Yields.foldlM_range' (I := fun k => Selection (start + k) k) (.nil _) ?_
    intro k drawn _ hdrawn
    exact (below_yields (Nat.succ_pos (start + k))).bind fun t ht =>
      .pure (selection_replacing hdrawn ht)
  · -- the shuffle draws more numbers and leaves the list alone
    by_cases hmany : 50 ≤ amount
    · rw [if_pos hmany]
      exact .bind (.trivial _) fun _ _ => .pure hdrawn
    · rw [if_neg hmany]
      exact .pure hdrawn

/-! ## Marking -/

/-- The positions drawn so far are those that are marked. -/
structure Marks (length count : Nat) (state : Array Bool × List Nat) : Prop where
  size_eq : state.1.size = length
  selection : Selection length count state.2
  marked_iff : ∀ p < length, state.1.getD p true = true ↔ p ∈ state.2

theorem Marks.start (length : Nat) : Marks length 0 (Array.replicate length false, []) where
  size_eq := Array.size_replicate
  selection := .nil length
  marked_iff p hp := by simp [Array.getD, hp]

/-- A position that is not marked is new. -/
theorem Marks.mark {count p : Nat} {marks : Array Bool} {drawn : List Nat}
    (h : Marks length count (marks, drawn)) (hp : marks.getD p true = false) :
    Marks length (count + 1) (marks.setIfInBounds p true, p :: drawn) := by
  have hlt : p < length := by
    by_contra hge
    rw [Array.getD_eq_getD_getElem?, Array.getElem?_eq_none (h.size_eq ▸ by omega)] at hp
    cases hp
  have hnew : p ∉ drawn := by
    rw [← h.marked_iff p hlt, hp]
    exact Bool.false_ne_true
  refine ⟨by rw [Array.size_setIfInBounds, h.size_eq], h.selection.cons hlt hnew, fun q hq => ?_⟩
  rw [List.mem_cons, ← h.marked_iff q hq, Array.getD_eq_getD_getElem?, Array.getD_eq_getD_getElem?,
    Array.getElem?_setIfInBounds]
  by_cases hsame : p = q
  · subst hsame
    simp [h.size_eq, hlt]
  · simp [hsame, Ne.symm hsame]

/-- While positions are left, the first one that is not marked is not. -/
theorem Marks.firstUnmarked {count : Nat} {marks : Array Bool} {drawn : List Nat}
    (h : Marks length count (marks, drawn)) (hlt : count < length) :
    marks.getD (firstUnmarked marks) true = false := by
  obtain ⟨p, hp, hnew⟩ := h.selection.exists_not_mem hlt
  have hmem : false ∈ marks := by
    have hunmarked : marks.getD p true = false := by
      rwa [← Bool.not_eq_true, h.marked_iff p hp]
    rw [Array.getD, dif_pos (h.size_eq.symm ▸ hp)] at hunmarked
    rw [← hunmarked]
    exact Array.getElem_mem _
  have hfirst : Draw.firstUnmarked marks < marks.size :=
    List.idxOf_lt_length_of_mem (Array.mem_toList_iff.mpr hmem)
  rw [Array.getD, dif_pos hfirst]
  exact List.getElem_idxOf hfirst

theorem byMarking_yields (h : amount ≤ length) :
    Yields (Selection length amount) (byMarking length amount : Draw σ (List Nat)) := by
  unfold byMarking
  refine Yields.bind (P := Marks length amount) ?_ fun state hstate => .pure hstate.selection
  refine Yields.foldlM_range (I := Marks length) (.start length) ?_
  rintro k ⟨marks, drawn⟩ hlt hmarks
  refine Yields.bind (P := fun p => marks.getD p true = false) ?_ fun p hp => .pure (hmarks.mark hp)
  refine .drawUntil (.trivial _) (fun p _ haccept => ?_) (hmarks.firstUnmarked (by omega))
  simpa using haccept

theorem subset_samples : Samples (subset : Sampler σ) := by
  intro length amount h
  unfold subset
  cases Method.choose length amount with
  | swapping => exact bySwapping_yields h
  | replacing => exact byReplacing_yields h
  | marking => exact byMarking_yields h

end Draw

end SparseDatasets
