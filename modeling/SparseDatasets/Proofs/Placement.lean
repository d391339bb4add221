import Mathlib.Data.Nat.SuccPred
import SparseDatasets.Proofs.Totality

/-!
# What any arrays leave in a cell

The loose decoder takes arrays of which nothing is known: spans may overlap, run
backwards or reach past the slots, and a row may hold one column many times. It
writes the slots of a row one after the other, and no row writes into the cells of
another one. What stays in a cell is therefore the value of the greatest slot that is
put there, whatever the arrays are, and zero if no slot is.

- `Csr.Places`: a slot is put into a cell.
- `Csr.Leaves`: what the arrays leave in a cell.
- `Csr.lastAt?_looseEntries`: only the span of its own row matters to a cell.
- `Csr.lastAt?_of_isGreatest`: the last entry of a cell is that of its greatest slot.
- `Csr.decodeLoosely_eq_ok_leaves`: what the loose decoder gives.
- `Csr.decodeLoosely_leaves`: it never goes wrong, and agrees with the strict decoder.
-/

namespace SparseDatasets

namespace Csr

variable {α : Type}

/-! ## The last entry of a cell -/

theorem lastAt?_append {row col : Nat} {before after : List (Nat × Nat × α)} :
    lastAt? row col (before ++ after) = (lastAt? row col after).or (lastAt? row col before) := by
  induction before with
  | nil => simp [lastAt?]
  | cons entry rest ih =>
    obtain ⟨i, j, x⟩ := entry
    rw [List.cons_append, lastAt?, ih, lastAt?, Option.or_assoc]

/-- Leaving out entries of other cells changes nothing. -/
theorem lastAt?_filter {row col : Nat} {keep : Nat × Nat × α → Bool}
    {entries : List (Nat × Nat × α)} (h : ∀ x, keep (row, col, x) = true) :
    lastAt? row col (entries.filter keep) = lastAt? row col entries := by
  induction entries with
  | nil => rfl
  | cons entry rest ih =>
    obtain ⟨i, j, x⟩ := entry
    by_cases hkeep : keep (i, j, x) = true
    · rw [List.filter_cons_of_pos hkeep, lastAt?, lastAt?, ih]
    · have hother : ¬ (i = row ∧ j = col) := by
        rintro ⟨rfl, rfl⟩
        exact hkeep (h x)
      rw [List.filter_cons_of_neg hkeep, lastAt?, ih, if_neg hother, Option.or_none]

/-- Of entries row by row, a cell sees those of its row. -/
theorem lastAt?_flatMap_range {entries : Nat → List (Nat × Nat × α)} {row col n : Nat}
    (h : ∀ r, ∀ entry ∈ entries r, entry.1 = r) :
    lastAt? row col ((List.range n).flatMap entries) =
      if row < n then lastAt? row col (entries row) else none := by
  induction n with
  | zero => rfl
  | succ n ih =>
    rw [List.range_succ, List.flatMap_append, List.flatMap_singleton, lastAt?_append, ih]
    by_cases hlast : row = n
    · subst hlast
      rw [if_neg (Nat.lt_irrefl row), if_pos (Nat.lt_succ_self row), Option.or_none]
    · have hnone : lastAt? row col (entries n) = none :=
        lastAt?_eq_none_iff.mpr fun x hx => hlast (h n _ hx)
      rw [hnone, Option.none_or]
      exact if_congr (by omega) rfl rfl

/-! ## Slots and cells -/

/-- The slot is put into the cell: both pointers of the row are there, the slot lies in the span
between them, cut off where the slots end, and it holds the column. -/
structure Places (m : Csr α) (row col slot : Nat) : Prop where
  pointers : row + 1 < m.rowPtr.size
  start_le : min (m.pointer row) m.slotCount ≤ slot
  lt_stop : slot < min (m.pointer (row + 1)) m.slotCount
  column_eq : (m.column slot).toNat = col

/-- What the arrays leave in a cell: the value of the greatest slot that is put there, and zero if
there is none. -/
inductive Leaves [Zero α] (m : Csr α) (row col : Nat) : α → Prop where
  | last {slot : Nat} {x : α} : IsGreatest {s | m.Places row col s} slot →
      m.values[slot]? = some x → m.Leaves row col x
  | empty : (∀ slot, ¬ m.Places row col slot) → m.Leaves row col 0

section Placement

variable [Element α] {m : Csr α} {row col rows cols : Nat}

theorem Places.getElem?_values {slot : Nat} (h : m.Places row col slot) :
    m.values[slot]? = some (m.value slot) := by
  have hslot := h.lt_stop
  rw [slotCount] at hslot
  have hsize : slot < m.values.size := by omega
  simp [value, Array.getD, hsize]

/-- The arrays leave one value in a cell. -/
theorem Leaves.unique {x y : α} (hx : m.Leaves row col x) (hy : m.Leaves row col y) : x = y := by
  cases hx with
  | last hgreatest hvalue =>
    cases hy with
    | last hgreatest' hvalue' =>
      rw [hgreatest.unique hgreatest', hvalue'] at hvalue
      exact (Option.some.inj hvalue).symm
    | empty hnone => exact absurd hgreatest.1 (hnone _)
  | empty hnone =>
    cases hy with
    | last hgreatest _ => exact absurd hgreatest.1 (hnone _)
    | empty _ => rfl

/-- A span up to one of its slots, that slot, and what comes after it. -/
theorem span_split {start slot stop : Nat} (hge : start ≤ slot) (hlt : slot < stop) :
    m.span row start stop = m.span row start slot ++
      (row, (m.column slot).toNat, m.value slot) :: m.span row (slot + 1) stop := by
  have hrange : List.range' start (stop - start) =
      List.range' start (slot - start) ++ slot :: List.range' (slot + 1) (stop - (slot + 1)) := by
    have hcount : stop - start = (slot - start) + (stop - (slot + 1) + 1) := by omega
    rw [hcount, ← List.range'_append_1, Nat.add_sub_cancel' hge, List.range'_succ]
  rw [span, hrange, List.map_append, List.map_cons, span, span]

/-- Only the span of its own row matters to a cell. -/
theorem lastAt?_looseEntries (hrow : row < rows) (hcol : col < cols) :
    lastAt? row col (m.looseEntries rows cols) =
      if row + 1 < m.rowPtr.size then
        lastAt? row col (m.span row (min (m.pointer row) m.slotCount)
          (min (m.pointer (row + 1)) m.slotCount))
      else none := by
  have hgroup : ∀ r, ∀ entry ∈ Guarded.looseSpan m cols r, entry.1 = r := by
    intro r entry hentry
    obtain ⟨slot, -, -, rfl⟩ := mem_span.mp (List.mem_filter.mp hentry).1
    rfl
  have hrows : lastAt? row col (m.looseEntries rows cols) =
      if row < min rows (m.rowPtr.size - 1) then lastAt? row col (Guarded.looseSpan m cols row)
      else none := lastAt?_flatMap_range hgroup
  rw [hrows, Guarded.looseSpan, lastAt?_filter fun _ => by simpa using hcol]
  exact if_congr (by omega) rfl rfl

/-- The last entry of a cell is that of its greatest slot. -/
theorem lastAt?_of_isGreatest (hrow : row < rows) (hcol : col < cols) {slot : Nat}
    (h : IsGreatest {s | m.Places row col s} slot) :
    lastAt? row col (m.looseEntries rows cols) = some (m.value slot) := by
  obtain ⟨hpointers, hstart, hstop, rfl⟩ := h.1
  -- a later entry of the cell would come from a greater slot
  have hafter : lastAt? row (m.column slot).toNat (m.span row (slot + 1)
      (min (m.pointer (row + 1)) m.slotCount)) = none := by
    refine lastAt?_eq_none_iff.mpr fun x hx => ?_
    obtain ⟨later, hge, hlt, heq⟩ := mem_span.mp hx
    have hcolumn : (m.column slot).toNat = (m.column later).toNat := by
      injection heq with _ hrest
      injection hrest
    have hle : later ≤ slot := h.2 ⟨hpointers, by omega, hlt, hcolumn.symm⟩
    omega
  rw [lastAt?_looseEntries hrow hcol, if_pos hpointers, span_split hstart hstop, lastAt?_append,
    lastAt?, hafter, Option.none_or, if_pos ⟨rfl, rfl⟩]
  rfl

theorem lastAt?_of_not_places (hrow : row < rows) (hcol : col < cols)
    (h : ∀ slot, ¬ m.Places row col slot) :
    lastAt? row col (m.looseEntries rows cols) = none := by
  rw [lastAt?_looseEntries hrow hcol]
  refine ite_eq_right_iff.mpr fun hpointers => lastAt?_eq_none_iff.mpr fun x hx => ?_
  obtain ⟨slot, hge, hlt, heq⟩ := mem_span.mp hx
  cases heq
  exact h slot ⟨hpointers, hge, hlt, rfl⟩

/-- The arrays leave in a cell what its last entry says. -/
theorem leaves_lastAt? (hrow : row < rows) (hcol : col < cols) :
    m.Leaves row col ((lastAt? row col (m.looseEntries rows cols)).getD 0) := by
  by_cases hplaced : ∃ slot, m.Places row col slot
  · have hbounded : BddAbove {slot | m.Places row col slot} :=
      ⟨m.slotCount, fun slot h =>
        Nat.le_of_lt (Nat.lt_of_lt_of_le h.lt_stop (Nat.min_le_right _ _))⟩
    obtain ⟨slot, hgreatest⟩ := hbounded.exists_isGreatest_of_nonempty hplaced
    rw [lastAt?_of_isGreatest hrow hcol hgreatest]
    exact .last hgreatest hgreatest.1.getElem?_values
  · have hnone : ∀ slot, ¬ m.Places row col slot := not_exists.mp hplaced
    rw [lastAt?_of_not_places hrow hcol hnone]
    exact .empty hnone

/-- The loose decoder gives the cells of the shape, each with what the arrays leave in it. -/
theorem decodeLoosely_eq_ok_leaves (m : Csr α) (hword : rows * cols < wordLimit) :
    ∃ cells, m.decodeLoosely rows cols = .ok cells ∧ cells.size = rows * cols ∧
      ∀ i < rows, ∀ j < cols, ∀ x, cells[i * cols + j]? = some x ↔ m.Leaves i j x := by
  obtain ⟨cells, hdecode, hsize, hcells⟩ := decodeLoosely_eq_ok (m := m) hword
  refine ⟨cells, hdecode, hsize, fun i hi j hj x => ?_⟩
  have hleaves := leaves_lastAt? (m := m) hi hj
  rw [hcells i hi j hj, Option.some.injEq]
  constructor
  · rintro rfl
    exact hleaves
  · exact hleaves.unique

/-! ## The decoders -/

/-- **The loose decoder has a meaning on any arrays.** No step of it goes wrong, it gives a cell for
each cell of the shape, and in it what the arrays leave there. Where the layout check accepts the
arrays and the shape is theirs, the strict decoder gives the same cells. -/
theorem decodeLoosely_leaves (m : Csr α) {rows cols : Nat} (hrows : rows < wordLimit)
    (hword : rows * cols < wordLimit) :
    ∃ cells, (Guarded.decodeLoosely m rows cols : Guarded MatrixError (Array α)) = .ok cells ∧
      m.decodeLoosely rows cols = .ok cells ∧ cells.size = rows * cols ∧
      (∀ i < rows, ∀ j < cols, ∀ x, cells[i * cols + j]? = some x ↔ m.Leaves i j x) ∧
      (m.checkLayout = .ok () → m.rows = rows → m.cols = cols →
        m.toDense = .ok (.ok ⟨rows, cols, cells⟩)) := by
  obtain ⟨cells, hguarded, hdecode⟩ := Guarded.decodeLoosely_eq (m := m) (δ := MatrixError)
    hrows hword
  obtain ⟨cells', hdecode', hsize, hleaves⟩ := decodeLoosely_eq_ok_leaves m hword
  cases hdecode.symm.trans hdecode'
  refine ⟨cells, hguarded, hdecode, hsize, hleaves, ?_⟩
  rintro hlayout rfl rfl
  rw [(checkLayout_eq_ok_iff.mp hlayout).toDense_eq, hdecode]
  rfl

end Placement

/-- Spans that overlap, run backwards and reach past the slots, with a column twice in one row and
a row whose pointers are missing; and a sound layout. -/
theorem decodeLoosely_leaves_garbage :
    let m : Csr Int32 := ⟨7, 1, #[0, 3, 1, 4], #[1, 1, 0, 7], #[10, 20, 30]⟩
    let n : Csr Int32 := ⟨2, 2, #[0, 1, 2], #[1, 0], #[5, 6]⟩
    4 < wordLimit ∧ 4 * 2 < wordLimit ∧
      m.Leaves 0 1 20 ∧ m.Leaves 1 1 0 ∧ m.Leaves 2 0 30 ∧ m.Leaves 3 0 0 ∧
      n.checkLayout = .ok () ∧ n.toDense = .ok (.ok ⟨2, 2, #[0, 5, 6, 0]⟩) := by
  intro m n
  have hrows : 4 < wordLimit := by decide
  have hword : 4 * 2 < wordLimit := by decide
  have hdecodes : m.decodeLoosely 4 2 = .ok #[30, 20, 0, 0, 30, 20, 0, 0] := by decide +kernel
  obtain ⟨cells, -, hcells, -, hleaves, -⟩ := decodeLoosely_leaves m hrows hword
  cases hdecodes.symm.trans hcells
  have hlayout : n.checkLayout = .ok () := by decide +kernel
  have hsound : n.decodeLoosely 2 2 = .ok #[0, 5, 6, 0] := by decide +kernel
  obtain ⟨cells, -, hcells, -, -, hstrict⟩ :=
    decodeLoosely_leaves n (by decide : 2 < wordLimit) (by decide : 2 * 2 < wordLimit)
  cases hsound.symm.trans hcells
  exact ⟨hrows, hword, (hleaves 0 (by decide) 1 (by decide) 20).mp rfl,
    (hleaves 1 (by decide) 1 (by decide) 0).mp rfl, (hleaves 2 (by decide) 0 (by decide) 30).mp rfl,
    (hleaves 3 (by decide) 0 (by decide) 0).mp rfl, hlayout, hstrict hlayout rfl rfl⟩

end Csr

end SparseDatasets
