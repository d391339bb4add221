import SparseDatasets.Proofs.Layout

/-!
# The first defect of a layout

The layout check stops at the first thing that is wrong and names it, with figures
that it takes from its counters. This module says what the first defect of any
arrays is without walking them: the rows are taken in order, in a row the span and
then the slots that there are, and the figures are those of the arrays. While no
defect has been met the cursor of the check stands where the row pointers say, so
the figures are the same.

- `Csr.SlotDefect`, `Csr.RowDefect`: what is wrong with a slot, and with a row.
- `Csr.FirstDefect`: the defect of the arrays that comes first.
- `Csr.checkRow_eq_error_iff`: the check of a row, from a cursor at its start.
- `Csr.clean_iff_foldlM`: the rows below a bound without a defect are passed.
- `Csr.checkLayout_names`: the layout check names the first defect and no other.
-/

namespace SparseDatasets

namespace Csr

variable {α : Type}

/-! ## What is wrong, and what comes first -/

/-- What is wrong with a slot of a row: its column lies outside the matrix, or the column before
it in the row is not below it. -/
inductive SlotDefect (m : Csr α) (r slot : Nat) : LayoutDefect → Prop
  | outOfRange (hcol : m.cols ≤ (m.column slot).toNat) :
    SlotDefect m r slot (.columnOutOfRange slot (m.column slot) m.cols)
  | unsorted (hcol : (m.column slot).toNat < m.cols) (hlater : m.pointer r < slot)
    (hle : m.column slot ≤ m.column (slot - 1)) :
    SlotDefect m r slot (.unsortedColumns r slot)

/-- The slot lies in the span of the row, and there is such a slot. -/
def Available (m : Csr α) (r slot : Nat) : Prop :=
  m.pointer r ≤ slot ∧ slot < min (m.pointer (r + 1)) m.slotCount

/-- What is wrong with a row: its span runs backwards, or one of its slots is defective, and then
the first of them counts, or all slots that there are for it are sound but too few. -/
inductive RowDefect (m : Csr α) (r : Nat) : LayoutDefect → Prop
  | decreasing (hback : m.pointer (r + 1) < m.pointer r) :
    RowDefect m r (.decreasingRowPtr r)
  | slot {slot : Nat} {defect : LayoutDefect} (hspan : m.pointer r ≤ m.pointer (r + 1))
    (hin : m.Available r slot) (hdefect : m.SlotDefect r slot defect)
    (hbefore : ∀ s < slot, m.Available r s → ∀ d, ¬ m.SlotDefect r s d) :
    RowDefect m r defect
  | partialSpan (hspan : m.pointer r ≤ m.pointer (r + 1))
    (hslots : ∀ s, m.Available r s → ∀ d, ¬ m.SlotDefect r s d)
    (hshort : m.slotCount < m.pointer (r + 1)) :
    RowDefect m r
      (.partialSpan r (m.pointer (r + 1) - m.pointer r) (m.slotCount - m.pointer r))

/-- The defect of the arrays that comes first: the number of row pointers, then the first of
them, then the first row that has a defect, and last the ends of the two arrays of slots. -/
inductive FirstDefect (m : Csr α) : LayoutDefect → Prop
  | pointers (hsize : m.rowPtr.size ≠ m.rows + 1) :
    FirstDefect m (.rowPtrLength (min (m.rows + 1) (wordLimit - 1)) m.rowPtr.size)
  | start {first : UInt32} (hsize : m.rowPtr.size = m.rows + 1)
    (hfirst : m.rowPtr[0]? = some first) (hzero : first ≠ 0) :
    FirstDefect m (.nonzeroStart first)
  | row {r : Nat} {defect : LayoutDefect} (hsize : m.rowPtr.size = m.rows + 1)
    (hzero : m.rowPtr[0]? = some 0) (hr : r < m.rows) (hdefect : m.RowDefect r defect)
    (hbefore : ∀ r' < r, ∀ d, ¬ m.RowDefect r' d) :
    FirstDefect m defect
  | slots (hsize : m.rowPtr.size = m.rows + 1) (hzero : m.rowPtr[0]? = some 0)
    (hrows : ∀ r < m.rows, ∀ d, ¬ m.RowDefect r d)
    (hends : m.pointer m.rows ≠ m.colIdx.size ∨ m.pointer m.rows ≠ m.values.size) :
    FirstDefect m (.slotCountMismatch (m.pointer m.rows) m.colIdx.size m.values.size)

/-! ## Slots -/

theorem checkSlot_eq_error_iff {m : Csr α} {r slot : Nat} {defect : LayoutDefect} :
    m.checkSlot r (m.pointer r) slot = .error defect ↔ m.SlotDefect r slot defect := by
  constructor
  · intro h
    simp only [checkSlot] at h
    split at h
    · cases h
      exact .outOfRange ‹_›
    · rename_i hcol
      split at h
      · rename_i hasc
        cases h
        exact .unsorted (Nat.lt_of_not_le hcol) hasc.1 hasc.2
      · cases h
  · intro h
    cases h with
    | outOfRange hcol => simp [checkSlot, hcol]
    | unsorted hcol hlater hle => simp [checkSlot, hlater, hle, Nat.not_le.mpr hcol]

theorem checkSlot_eq_ok_iff_clean {m : Csr α} {r slot : Nat} :
    m.checkSlot r (m.pointer r) slot = .ok () ↔ ∀ d, ¬ m.SlotDefect r slot d := by
  simp only [eq_ok_iff_not_error, ne_eq, checkSlot_eq_error_iff]

/-! ## Rows -/

/-- The slots that are checked for a row are the ones available to it. -/
theorem available_iff {m : Csr α} {r : Nat} (hstart : m.pointer r ≤ m.slotCount)
    (hspan : m.pointer r ≤ m.pointer (r + 1)) {slot : Nat} :
    m.Available r slot ↔ m.pointer r ≤ slot ∧ slot < m.pointer r +
      min (m.pointer (r + 1) - m.pointer r) (m.slotCount - m.pointer r) := by
  unfold Available
  omega

/-- The check of a row, from a cursor at the start of its span, fails with the defect of the row. -/
theorem checkRow_eq_error_iff {m : Csr α} {r : Nat} {defect : LayoutDefect}
    (hstart : m.pointer r ≤ m.slotCount) :
    m.checkRow (m.pointer r) r = .error defect ↔ m.RowDefect r defect := by
  have hclean : ∀ hspan : m.pointer r ≤ m.pointer (r + 1),
      (List.range' (m.pointer r) (min (m.pointer (r + 1) - m.pointer r)
        (m.slotCount - m.pointer r))).forM (m.checkSlot r (m.pointer r)) = .ok () ↔
      ∀ s, m.Available r s → ∀ d, ¬ m.SlotDefect r s d := by
    intro hspan
    rw [forM_eq_ok]
    simp only [List.mem_range'_1, checkSlot_eq_ok_iff_clean, ← available_iff hstart hspan]
  -- if fewer slots are left than the span claims, those that are left were all checked
  have hconsumed : m.slotCount < m.pointer (r + 1) →
      min (m.pointer (r + 1) - m.pointer r) (m.slotCount - m.pointer r) =
        m.slotCount - m.pointer r := by omega
  simp only [checkRow, throw_bind, guard_eq_error, bind_eq_error, Nat.not_lt]
  constructor
  · rintro (⟨hback, rfl⟩ | ⟨hspan, hslots | ⟨⟨⟩, hslots, ⟨hshort, rfl⟩ | ⟨-, hend⟩⟩⟩)
    · exact .decreasing hback
    · obtain ⟨slot, hge, hlt, hfails, hbefore⟩ := forM_range'_eq_error.mp hslots
      refine .slot hspan ((available_iff hstart hspan).mpr ⟨hge, hlt⟩)
        (checkSlot_eq_error_iff.mp hfails) fun s hs hin => ?_
      exact checkSlot_eq_ok_iff_clean.mp
        (hbefore s ((available_iff hstart hspan).mp hin).1 hs)
    · rw [hconsumed (by omega)]
      exact .partialSpan hspan ((hclean hspan).mp hslots) (by omega)
    · cases hend
  · intro h
    cases h with
    | decreasing hback => exact .inl ⟨hback, rfl⟩
    | slot hspan hin hdefect hbefore =>
      refine .inr ⟨hspan, .inl (forM_range'_eq_error.mpr ?_)⟩
      obtain ⟨hge, hlt⟩ := (available_iff hstart hspan).mp hin
      refine ⟨_, hge, hlt, checkSlot_eq_error_iff.mpr hdefect, fun s hs hslot => ?_⟩
      exact checkSlot_eq_ok_iff_clean.mpr
        (hbefore s hslot ((available_iff hstart hspan).mpr ⟨hs, by omega⟩))
    | partialSpan hspan hslots hshort =>
      refine .inr ⟨hspan, .inr ⟨(), (hclean hspan).mpr hslots, .inl ⟨by omega, ?_⟩⟩⟩
      rw [hconsumed hshort]

/-- The rows below a bound have no defect iff the check passes them. -/
theorem clean_iff_foldlM {m : Csr α} (hzero : m.pointer 0 = 0) {n : Nat} :
    (∀ r < n, ∀ d, ¬ m.RowDefect r d) ↔
      (List.range n).foldlM m.checkRow 0 = .ok (m.pointer n) := by
  induction n with
  | zero => simp [pure, Except.pure, hzero]
  | succ n ih =>
    rw [Nat.forall_lt_succ_right, ih, foldlM_succ, bind_eq_ok]
    constructor
    · rintro ⟨hbefore, hrow⟩
      have hstart := ((foldlM_checkRow_eq_ok_iff hzero).mp hbefore).2.1
      refine ⟨m.pointer n, hbefore, ?_⟩
      -- a row that does not fail ends at the next pointer
      cases hcheck : m.checkRow (m.pointer n) n with
      | error d => exact absurd ((checkRow_eq_error_iff hstart).mp hcheck) (hrow d)
      | ok next => rw [((checkRow_eq_ok_iff hstart).mp hcheck).1]
    · rintro ⟨cursor, hbefore, hrow⟩
      obtain ⟨rfl, hstart, -⟩ := (foldlM_checkRow_eq_ok_iff hzero).mp hbefore
      refine ⟨hbefore, fun d hd => ?_⟩
      rw [(checkRow_eq_error_iff hstart).mpr hd] at hrow
      cases hrow

/-- The walk over the rows fails with the defect of the first row that has one. -/
theorem foldlM_checkRow_eq_error_iff {m : Csr α} (hzero : m.pointer 0 = 0) {n : Nat}
    {defect : LayoutDefect} :
    (List.range n).foldlM m.checkRow 0 = .error defect ↔
      ∃ r < n, (∀ r' < r, ∀ d, ¬ m.RowDefect r' d) ∧ m.RowDefect r defect := by
  rw [foldlM_range_eq_error]
  refine exists_congr fun r => and_congr_right fun _ => ?_
  rw [clean_iff_foldlM hzero]
  constructor
  · rintro ⟨cursor, hbefore, hrow⟩
    obtain ⟨rfl, hstart, -⟩ := (foldlM_checkRow_eq_ok_iff hzero).mp hbefore
    exact ⟨hbefore, (checkRow_eq_error_iff hstart).mp hrow⟩
  · rintro ⟨hbefore, hrow⟩
    have hstart := ((foldlM_checkRow_eq_ok_iff hzero).mp hbefore).2.1
    exact ⟨m.pointer r, hbefore, (checkRow_eq_error_iff hstart).mpr hrow⟩

/-! ## The layout check -/

/-- **The layout check names the first defect of the arrays and no other**, for any arrays and
any declared shape. -/
theorem checkLayout_names (m : Csr α) (defect : LayoutDefect) :
    m.checkLayout = .error defect ↔ m.FirstDefect defect := by
  -- once there is a pointer for the end, there is a first one
  have hget : m.rowPtr.size = m.rows + 1 → m.rowPtr[0]? = some (m.rowPtr.getD 0 0) := by
    intro hsize
    simp [Array.getD, hsize]
  have hstart : m.rowPtr[0]? = some 0 → m.pointer 0 = 0 := pointer_eq_of_getElem?
  simp only [checkLayout, ne_eq, throw_bind, guard_eq_error, bind_eq_error, not_not]
  constructor
  · rintro (⟨hsize, rfl⟩ | ⟨hsize, ⟨hfirst, rfl⟩ | ⟨hfirst, hrows | ⟨cursor, hrows, hends⟩⟩⟩)
    · exact .pointers hsize
    · exact .start hsize (hget hsize) hfirst
    · have hzero := hfirst ▸ hget hsize
      obtain ⟨r, hr, hbefore, hdefect⟩ := (foldlM_checkRow_eq_error_iff (hstart hzero)).mp hrows
      exact .row hsize hzero hr hdefect hbefore
    · have hzero := hfirst ▸ hget hsize
      obtain ⟨rfl, -, -⟩ := (foldlM_checkRow_eq_ok_iff (hstart hzero)).mp hrows
      rcases hends with ⟨hends, rfl⟩ | ⟨-, hend⟩
      · exact .slots hsize hzero ((clean_iff_foldlM (hstart hzero)).mpr hrows) hends
      · cases hend
  · intro h
    cases h with
    | pointers hsize => exact .inl ⟨hsize, rfl⟩
    | start hsize hfirst hzero =>
      obtain rfl := Option.some_inj.mp ((hget hsize).symm.trans hfirst)
      exact .inr ⟨hsize, .inl ⟨hzero, rfl⟩⟩
    | row hsize hzero hr hdefect hbefore =>
      have hfirst := Option.some_inj.mp ((hget hsize).symm.trans hzero)
      refine .inr ⟨hsize, .inr ⟨hfirst, .inl ?_⟩⟩
      exact (foldlM_checkRow_eq_error_iff (hstart hzero)).mpr ⟨_, hr, hbefore, hdefect⟩
    | slots hsize hzero hrows hends =>
      have hfirst := Option.some_inj.mp ((hget hsize).symm.trans hzero)
      have hpassed := (clean_iff_foldlM (hstart hzero)).mp hrows
      exact .inr ⟨hsize, .inr ⟨hfirst, .inr ⟨_, hpassed, .inl ⟨hends, rfl⟩⟩⟩⟩

end Csr

end SparseDatasets
