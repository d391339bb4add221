import SparseDatasets.Proofs.Fallible
import SparseDatasets.Proofs.Indexing

/-!
# Sound layouts

The layout check walks the slots with a cursor of its own, while the row pointers
claim where each row begins. As long as nothing is wrong the two agree, so the
check accepts exactly the arrays in which the rows, one after the other, use up
all slots, and in which the columns of every row are in range and ascend.

Sound arrays are the arrays that index an ascending list of offsets: reading the
offset of every slot off its row and its column gives this list back.

- `Csr.RowSound`, `Csr.Sound`: what a sound layout is.
- `Csr.checkLayout_eq_ok_iff`: the check accepts the sound layouts.
- `Csr.Sound.holds_unique`: no cell has two slots.
- `Csr.slotwise`: a function of the row and the slot, over the slots row by row.
- `Csr.offsets`: the offset of every slot.
- `Csr.Sound.indexes_offsets`: sound arrays index their offsets.
- `Csr.Indexes.sound`: arrays that index ascending offsets are sound.
-/

namespace SparseDatasets

namespace Csr

variable {α : Type}

/-! ## What a sound layout is -/

/-- The span of a row runs forwards, and its columns are in range and ascend. -/
structure RowSound (m : Csr α) (r : Nat) : Prop where
  span_le : m.pointer r ≤ m.pointer (r + 1)
  column_lt : ∀ slot, m.InRow r slot → (m.column slot).toNat < m.cols
  ascending : ∀ slot, m.InRow r slot → m.InRow r (slot + 1) → m.column slot < m.column (slot + 1)

/-- There is a pointer for each row and one for the end, the rows use up both arrays of slots,
and every row is sound. -/
structure Sound (m : Csr α) : Prop where
  rowPtr_size : m.rowPtr.size = m.rows + 1
  pointer_zero : m.pointer 0 = 0
  colIdx_size : m.colIdx.size = m.pointer m.rows
  values_size : m.values.size = m.pointer m.rows
  row : ∀ r < m.rows, m.RowSound r

theorem Sound.slotCount_eq {m : Csr α} (h : m.Sound) : m.slotCount = m.pointer m.rows := by
  rw [slotCount, h.colIdx_size, h.values_size, Nat.min_self]

/-! ## The layout check -/

theorem checkSlot_eq_ok_iff {m : Csr α} {row start slot : Nat} :
    m.checkSlot row start slot = .ok () ↔
      (m.column slot).toNat < m.cols ∧
        (start < slot → m.column (slot - 1) < m.column slot) := by
  by_cases hcol : m.cols ≤ (m.column slot).toNat
  · simp [checkSlot, hcol]
  · by_cases hasc : start < slot ∧ m.column slot ≤ m.column (slot - 1)
    · simp [checkSlot, hcol, hasc]
    · have hlt : start < slot → m.column (slot - 1) < m.column slot := by
        intro hslot
        exact UInt32.not_le.mp fun hle => hasc ⟨hslot, hle⟩
      simpa [checkSlot, hcol, hasc, Nat.lt_of_not_le hcol] using hlt

/-- The slots of a span that runs forwards pass iff the row is sound. -/
theorem forM_checkSlot_eq_ok_iff {m : Csr α} {row : Nat}
    (hspan : m.pointer row ≤ m.pointer (row + 1)) :
    (List.range' (m.pointer row) (m.pointer (row + 1) - m.pointer row)).forM
      (m.checkSlot row (m.pointer row)) = .ok () ↔ m.RowSound row := by
  have hmem : ∀ slot, slot ∈ List.range' (m.pointer row) (m.pointer (row + 1) - m.pointer row) ↔
      m.InRow row slot := by
    intro slot
    rw [List.mem_range'_1, InRow, Nat.add_sub_cancel' hspan]
  rw [forM_eq_ok]
  constructor
  · intro hslots
    refine ⟨hspan, fun slot hin => ?_, fun slot hin hin' => ?_⟩
    · exact (checkSlot_eq_ok_iff.mp (hslots slot ((hmem slot).mpr hin))).1
    · have hnext := checkSlot_eq_ok_iff.mp (hslots (slot + 1) ((hmem (slot + 1)).mpr hin'))
      exact hnext.2 (Nat.lt_succ_of_le hin.1)
  · intro hrow slot hslot
    have hin := (hmem slot).mp hslot
    refine checkSlot_eq_ok_iff.mpr ⟨hrow.column_lt slot hin, fun hlater => ?_⟩
    -- the slot before it lies in the row as well
    have hpos : slot ≠ 0 := Nat.ne_of_gt (Nat.zero_lt_of_lt hlater)
    obtain ⟨before, rfl⟩ := Nat.exists_eq_add_one_of_ne_zero hpos
    exact hrow.ascending before ⟨Nat.le_of_lt_succ hlater, Nat.lt_of_succ_lt hin.2⟩ hin

/-- A row passes, from a cursor at the start of its span, iff it is sound and there are slots
enough for it. The cursor then stands at the end of the span. -/
theorem checkRow_eq_ok_iff {m : Csr α} {row next : Nat} (hstart : m.pointer row ≤ m.slotCount) :
    m.checkRow (m.pointer row) row = .ok next ↔
      next = m.pointer (row + 1) ∧ m.pointer (row + 1) ≤ m.slotCount ∧ m.RowSound row := by
  simp only [checkRow, throw_bind, guard_eq_ok, bind_eq_ok, pure_eq_ok, Nat.not_lt, not_not]
  constructor
  · rintro ⟨hspan, ⟨⟩, hslots, hconsumed, hnext⟩
    -- the span was not cut short, so each of its slots was checked
    rw [hconsumed] at hslots hnext
    exact ⟨by omega, by omega, (forM_checkSlot_eq_ok_iff hspan).mp hslots⟩
  · rintro ⟨rfl, havailable, hrow⟩
    have hspan := hrow.span_le
    have hconsumed : min (m.pointer (row + 1) - m.pointer row) (m.slotCount - m.pointer row) =
        m.pointer (row + 1) - m.pointer row := by omega
    rw [hconsumed]
    exact ⟨hspan, (), (forM_checkSlot_eq_ok_iff hspan).mpr hrow, rfl, by omega⟩

/-- The rows below a bound pass iff they are sound and the slots suffice, and the cursor then
stands at the start of the next row. -/
theorem foldlM_checkRow_eq_ok_iff {m : Csr α} (hzero : m.pointer 0 = 0) {n next : Nat} :
    (List.range n).foldlM m.checkRow 0 = .ok next ↔
      next = m.pointer n ∧ m.pointer n ≤ m.slotCount ∧ ∀ r < n, m.RowSound r := by
  induction n generalizing next with
  | zero =>
    simp only [List.range_zero, List.foldlM_nil, pure_eq_ok]
    constructor
    · rintro rfl
      exact ⟨hzero.symm, by omega, fun r hr => absurd hr (Nat.not_lt_zero r)⟩
    · rintro ⟨rfl, -, -⟩
      exact hzero.symm
  | succ n ih =>
    rw [foldlM_succ, bind_eq_ok]
    constructor
    · rintro ⟨cursor, hbefore, hrow⟩
      obtain ⟨rfl, hstart, hsound⟩ := ih.mp hbefore
      obtain ⟨hnext, havailable, hlast⟩ := (checkRow_eq_ok_iff hstart).mp hrow
      refine ⟨hnext, havailable, fun r hr => ?_⟩
      rcases Nat.lt_succ_iff_lt_or_eq.mp hr with hr | rfl
      · exact hsound r hr
      · exact hlast
    · rintro ⟨hnext, havailable, hsound⟩
      have hlast := hsound n (Nat.lt_succ_self n)
      have hstart : m.pointer n ≤ m.slotCount := Nat.le_trans hlast.span_le havailable
      exact ⟨m.pointer n, ih.mpr ⟨rfl, hstart, fun r hr => hsound r (Nat.lt_succ_of_lt hr)⟩,
        (checkRow_eq_ok_iff hstart).mpr ⟨hnext, havailable, hlast⟩⟩

/-- **The layout check accepts exactly the sound layouts.** -/
theorem checkLayout_eq_ok_iff {m : Csr α} : m.checkLayout = .ok () ↔ m.Sound := by
  have hfirst : m.rowPtr.getD 0 0 = 0 ↔ m.pointer 0 = 0 := by
    rw [pointer, ← UInt32.toNat_zero, UInt32.toNat_inj]
  simp only [checkLayout, ne_eq, throw_bind, guard_eq_ok, bind_eq_ok, pure_eq_ok, not_not,
    not_or, and_true, hfirst]
  constructor
  · rintro ⟨hsize, hzero, cursor, hrows, hcol, hval⟩
    obtain ⟨-, -, hsound⟩ := (foldlM_checkRow_eq_ok_iff hzero).mp hrows
    exact ⟨hsize, hzero, hcol.symm, hval.symm, hsound⟩
  · intro h
    exact ⟨h.rowPtr_size, h.pointer_zero, m.pointer m.rows,
      (foldlM_checkRow_eq_ok_iff h.pointer_zero).mpr ⟨rfl, h.slotCount_eq.ge, h.row⟩,
      h.colIdx_size.symm, h.values_size.symm⟩

/-! ## The slots, row by row -/

/-- A function of the row and the slot, over the slots of the first rows. -/
def slotwise {β : Type} (m : Csr α) (f : Nat → Nat → β) (n : Nat) : List β :=
  (List.range n).flatMap fun r =>
    (List.range' (m.pointer r) (m.pointer (r + 1) - m.pointer r)).map (f r)

/-- The offset of every slot, from its row and its column. -/
def offsets (m : Csr α) : List Nat :=
  m.slotwise (fun r slot => r * m.cols + (m.column slot).toNat) m.rows

theorem slotwise_succ {β : Type} (m : Csr α) (f : Nat → Nat → β) (n : Nat) :
    m.slotwise f (n + 1) = m.slotwise f n ++
      (List.range' (m.pointer n) (m.pointer (n + 1) - m.pointer n)).map (f n) := by
  rw [slotwise, List.range_succ, List.flatMap_append, List.flatMap_singleton]
  rfl

namespace Sound

variable {m : Csr α} {β : Type} {f : Nat → Nat → β}

theorem pointer_mono (h : m.Sound) {r r' : Nat} (hle : r ≤ r') (hr : r' ≤ m.rows) :
    m.pointer r ≤ m.pointer r' := by
  induction r', hle using Nat.le_induction with
  | base => exact Nat.le_refl _
  | succ r' _ ih => exact Nat.le_trans (ih (by omega)) (h.row r' hr).span_le

/-- The span of a row ends inside both arrays. -/
theorem pointer_le_slotCount (h : m.Sound) {r : Nat} (hr : r ≤ m.rows) :
    m.pointer r ≤ m.slotCount :=
  h.slotCount_eq ▸ h.pointer_mono hr (Nat.le_refl _)

/-- Every slot lies in a row. -/
theorem exists_inRow (h : m.Sound) {n slot : Nat} (hn : n ≤ m.rows) (hslot : slot < m.pointer n) :
    ∃ r < n, m.InRow r slot := by
  induction n with
  | zero =>
    rw [h.pointer_zero] at hslot
    exact absurd hslot (Nat.not_lt_zero slot)
  | succ n ih =>
    by_cases hbefore : slot < m.pointer n
    · obtain ⟨r, hr, hin⟩ := ih (Nat.le_of_lt hn) hbefore
      exact ⟨r, Nat.lt_succ_of_lt hr, hin⟩
    · exact ⟨n, Nat.lt_succ_self n, Nat.le_of_not_lt hbefore, hslot⟩

/-- Later slots lie in later rows. -/
theorem row_le (h : m.Sound) {r r' slot slot' : Nat} (hin : m.InRow r slot)
    (hin' : m.InRow r' slot') (hle : slot ≤ slot') (hr : r < m.rows) : r ≤ r' := by
  by_contra hlt
  -- the row of the later slot would end before that of the earlier one begins
  have hend : m.pointer (r' + 1) ≤ m.pointer r :=
    h.pointer_mono (Nat.lt_of_not_le hlt) (Nat.le_of_lt hr)
  have := hin.1
  have := hin'.2
  omega

theorem inRow_lt (h : m.Sound) {n r slot : Nat} (hn : n ≤ m.rows) (hr : r < n)
    (hin : m.InRow r slot) : slot < m.pointer n :=
  Nat.lt_of_lt_of_le hin.2 (h.pointer_mono hr hn)

/-- A slot lies before a row iff its own row does. -/
theorem lt_pointer_iff (h : m.Sound) {r r' slot : Nat} (hin : m.InRow r slot) (hr : r < m.rows)
    (hr' : r' ≤ m.rows) : slot < m.pointer r' ↔ r < r' := by
  constructor
  · intro hslot
    by_contra hge
    have hstart := h.pointer_mono (Nat.le_of_not_lt hge) (Nat.le_of_lt hr)
    have := hin.1
    omega
  · intro hlt
    exact h.inRow_lt hr' hlt hin

/-- The columns of a row ascend from any slot to any later one. -/
theorem column_lt_column (h : m.Sound) {r slot slot' : Nat} (hr : r < m.rows)
    (hin : m.InRow r slot) (hin' : m.InRow r slot') (hlt : slot < slot') :
    m.column slot < m.column slot' := by
  induction slot', hlt using Nat.le_induction with
  | base => exact (h.row r hr).ascending slot hin hin'
  | succ t hle ih =>
    have ht : m.InRow r t := ⟨by have := hin.1; omega, by have := hin'.2; omega⟩
    exact UInt32.lt_trans (ih ht) ((h.row r hr).ascending t ht hin')

/-- No cell has two slots. -/
theorem holds_unique (h : m.Sound) {row col slot slot' : Nat} (hrow : row < m.rows)
    (hslot : m.Holds row col slot) (hslot' : m.Holds row col slot') : slot = slot' := by
  have hsame : m.column slot = m.column slot' :=
    UInt32.toNat_inj.mp (hslot.2.trans hslot'.2.symm)
  rcases Nat.lt_trichotomy slot slot' with hlt | heq | hgt
  · have hcol := h.column_lt_column hrow hslot.1 hslot'.1 hlt
    rw [hsame] at hcol
    exact absurd hcol (UInt32.lt_irrefl _)
  · exact heq
  · have hcol := h.column_lt_column hrow hslot'.1 hslot.1 hgt
    rw [hsame] at hcol
    exact absurd hcol (UInt32.lt_irrefl _)

theorem slotwise_length (h : m.Sound) {n : Nat} (hn : n ≤ m.rows) :
    (m.slotwise f n).length = m.pointer n := by
  induction n with
  | zero => rw [h.pointer_zero]; rfl
  | succ n ih =>
    have := (h.row n hn).span_le
    rw [slotwise_succ, List.length_append, ih (by omega), List.length_map, List.length_range']
    omega

/-- The rows use up the slots in order: what belongs to a slot stands at its place. -/
theorem slotwise_getElem? (h : m.Sound) {n r slot : Nat} (hn : n ≤ m.rows) (hr : r < n)
    (hin : m.InRow r slot) : (m.slotwise f n)[slot]? = some (f r slot) := by
  induction n with
  | zero => exact absurd hr (Nat.not_lt_zero r)
  | succ n ih =>
    have hlength := h.slotwise_length (f := f) (Nat.le_of_succ_le hn)
    rw [slotwise_succ]
    -- the slots of the rows before the last one fill the front of the list
    rcases Nat.lt_succ_iff_lt_or_eq.mp hr with hr | rfl
    · rw [List.getElem?_append_left (hlength ▸ h.inRow_lt (Nat.le_of_succ_le hn) hr hin)]
      exact ih (Nat.le_of_succ_le hn) hr
    · have hstart := hin.1
      have hstop := hin.2
      rw [List.getElem?_append_right (hlength ▸ hstart), hlength, List.getElem?_map,
        List.getElem?_range' (by omega), Option.map_some]
      congr 2
      omega

/-! ## Sound layouts and offsets -/

theorem offsets_length (h : m.Sound) : m.offsets.length = m.pointer m.rows :=
  h.slotwise_length (Nat.le_refl _)

theorem offsets_getElem (h : m.Sound) {r slot : Nat} (hr : r < m.rows) (hin : m.InRow r slot)
    (hslot : slot < m.offsets.length) :
    m.offsets[slot] = r * m.cols + (m.column slot).toNat := by
  have hget := h.slotwise_getElem? (f := fun r slot => r * m.cols + (m.column slot).toNat)
    (Nat.le_refl _) hr hin
  exact (List.getElem?_eq_some_iff.mp hget).2

/-- The row of a slot, its offset, and the range of its column. -/
theorem exists_row (h : m.Sound) {slot : Nat} (hslot : slot < m.offsets.length) :
    ∃ r < m.rows, m.InRow r slot ∧ (m.column slot).toNat < m.cols ∧
      m.offsets[slot] = r * m.cols + (m.column slot).toNat := by
  obtain ⟨r, hr, hin⟩ := h.exists_inRow (Nat.le_refl _) (h.offsets_length ▸ hslot)
  exact ⟨r, hr, hin, (h.row r hr).column_lt slot hin, h.offsets_getElem hr hin hslot⟩

/-- Ascending columns in every row make the offsets ascend across the rows. -/
theorem offsets_pairwise (h : m.Sound) : m.offsets.Pairwise (· < ·) := by
  refine List.pairwise_iff_getElem.mpr fun slot slot' hslot hslot' hlt => ?_
  obtain ⟨r, hr, hin, hcol, hoffset⟩ := h.exists_row hslot
  obtain ⟨r', hr', hin', hcol', hoffset'⟩ := h.exists_row hslot'
  rw [hoffset, hoffset']
  rcases Nat.lt_or_eq_of_le (h.row_le hin hin' (Nat.le_of_lt hlt) hr) with hrow | rfl
  · -- the offset of the earlier slot lies before the row of the later one
    have hbefore : r * m.cols + (m.column slot).toNat < r' * m.cols :=
      (offset_lt_row_iff hcol).mpr hrow
    omega
  · have := UInt32.lt_iff_toNat_lt.mp (h.column_lt_column hr hin hin' hlt)
    omega

theorem offsets_lt (h : m.Sound) : ∀ i ∈ m.offsets, i < m.rows * m.cols := by
  intro i hi
  obtain ⟨slot, hslot, rfl⟩ := List.mem_iff_getElem.mp hi
  obtain ⟨r, hr, -, hcol, hoffset⟩ := h.exists_row hslot
  rw [hoffset]
  exact offset_lt hr hcol

/-- A row pointer of a sound layout counts the offsets before its row. -/
theorem pointer_eq_countP (h : m.Sound) {r : Nat} (hr : r ≤ m.rows) :
    m.pointer r = m.offsets.countP (· < r * m.cols) := by
  -- both numbers bound the same slots, and there are no more slots than offsets
  have hsame : ∀ slot < m.offsets.length,
      slot < m.pointer r ↔ slot < m.offsets.countP (· < r * m.cols) := by
    intro slot hslot
    obtain ⟨row, hrow, hin, hcol, hoffset⟩ := h.exists_row hslot
    have hcut := lt_countP_iff id h.offsets_pairwise (r * m.cols) hslot
    simp only [id_eq] at hcut
    rw [hcut, hoffset, offset_lt_row_iff hcol, h.lt_pointer_iff hin hrow hr]
  have hpointer : m.pointer r ≤ m.offsets.length := by
    rw [h.offsets_length]
    exact h.pointer_mono hr (Nat.le_refl _)
  have hcount : m.offsets.countP (· < r * m.cols) ≤ m.offsets.length := List.countP_le_length
  rcases Nat.lt_trichotomy (m.pointer r) (m.offsets.countP (· < r * m.cols)) with hlt | heq | hgt
  · exact absurd ((hsame _ (by omega)).mpr hlt) (Nat.lt_irrefl _)
  · exact heq
  · exact absurd ((hsame _ (by omega)).mp hgt) (Nat.lt_irrefl _)

/-- **Sound arrays index their offsets.** -/
theorem indexes_offsets (h : m.Sound) : m.Indexes m.offsets := by
  constructor
  · refine List.ext_getElem (by simp [h.rowPtr_size]) fun r hr hr' => ?_
    have hle : r ≤ m.rows := by simpa [Nat.lt_succ_iff] using hr'
    have hsize : r < m.rowPtr.size := by simpa using hr
    have hpointer := pointer_eq_of_getElem? (m := m) (Array.getElem?_eq_getElem hsize)
    rw [List.getElem_map, List.getElem_map, List.getElem_range, Array.getElem_toList, ← hpointer,
      h.pointer_eq_countP hle]
  · refine List.ext_getElem (by simp [h.colIdx_size, h.offsets_length]) fun slot hslot hslot' => ?_
    have hsize : slot < m.colIdx.size := by simpa using hslot
    have hoff : slot < m.offsets.length := by simpa using hslot'
    obtain ⟨r, -, -, hcol, hoffset⟩ := h.exists_row hoff
    have hcolumn : m.column slot = m.colIdx[slot] := by simp [column, Array.getD, hsize]
    rw [List.getElem_map, List.getElem_map, Array.getElem_toList, ← hcolumn, hoffset,
      offset_mod r hcol]

end Sound

/-- **Arrays that index ascending offsets of their shape are sound.** -/
theorem Indexes.sound {m : Csr α} {positions : List Nat} (h : m.Indexes positions)
    (hcols : 0 < m.cols) (hasc : positions.Pairwise (· < ·))
    (hin : ∀ i ∈ positions, i < m.rows * m.cols) (hval : m.values.size = positions.length) :
    m.Sound where
  rowPtr_size := h.rowPtr_size
  pointer_zero := by
    rw [h.pointer_eq (Nat.zero_le _), List.countP_eq_zero]
    simp
  colIdx_size := by rw [h.colIdx_size, h.pointer_rows hin]
  values_size := by rw [hval, h.pointer_rows hin]
  row := by
    intro r hr
    have hslot : ∀ slot, m.InRow r slot → slot < positions.length := fun slot hrow =>
      Nat.lt_of_lt_of_le hrow.2 (h.pointer_le hr)
    refine { span_le := h.pointer_mono (Nat.le_succ r) hr, column_lt := ?_, ascending := ?_ }
    · intro slot hrow
      rw [h.column_eq (hslot slot hrow)]
      exact Nat.mod_lt _ hcols
    · -- two offsets of one row differ as their columns do
      intro slot hrow hrow'
      have hk := hslot slot hrow
      have hk' := hslot (slot + 1) hrow'
      have hdiv := (h.inRow_iff hasc hcols hr hk).mp hrow
      have hdiv' := (h.inRow_iff hasc hcols hr hk').mp hrow'
      have hlt := List.pairwise_iff_getElem.mp hasc slot (slot + 1) hk hk' (Nat.lt_succ_self slot)
      rw [UInt32.lt_iff_toNat_lt, h.column_eq hk, h.column_eq hk']
      have hsplit := Nat.div_add_mod positions[slot] m.cols
      have hsplit' := Nat.div_add_mod positions[slot + 1] m.cols
      rw [hdiv] at hsplit
      rw [hdiv'] at hsplit'
      omega

end Csr

end SparseDatasets
