import SparseDatasets.Proofs.Layout

/-!
# Well-formed arrays

`Csr.Sound` says what a sound layout is row by row, the way the layout check walks
the arrays. A user of the arrays looks at each of them as a whole: the row pointers
start at zero, never decrease and end at the length of the slots, every stored
column lies inside the matrix, and the columns between two neighbouring pointers
ascend. The two descriptions agree, so the layout check decides this one as well.

- `Csr.WellFormed`: what the three arrays are to satisfy.
- `Csr.Sound.wellFormed`, `Csr.WellFormed.sound`: the two descriptions agree.
- `Csr.checkLayout_accepts`: the layout check accepts exactly the well-formed arrays.
-/

namespace SparseDatasets

namespace Csr

variable {α : Type}

/-- The arrays of a compressed matrix, each taken as a whole. -/
structure WellFormed (m : Csr α) : Prop where
  /-- There is a pointer for each row and one for the end. -/
  rowPtr_size : m.rowPtr.size = m.rows + 1
  first_eq : m.rowPtr[0]? = some 0
  nondecreasing : m.rowPtr.toList.Pairwise (· ≤ ·)
  /-- The last pointer is the number of columns stored. -/
  last_eq_columns : m.rowPtr[m.rows]?.map UInt32.toNat = some m.colIdx.size
  /-- The last pointer is the number of values stored. -/
  last_eq_values : m.rowPtr[m.rows]?.map UInt32.toNat = some m.values.size
  column_lt : ∀ col ∈ m.colIdx, col.toNat < m.cols
  /-- Between two neighbouring pointers the columns ascend; they may start anew at each pointer. -/
  ascending : ∀ r < m.rows, ∀ start stop, m.rowPtr[r]? = some start →
    m.rowPtr[r + 1]? = some stop →
    (m.colIdx.toList.extract start.toNat stop.toNat).Pairwise (· < ·)

/-! ## Columns of a span -/

/-- The columns of a span, read one after the other. -/
theorem extract_colIdx_pairwise_iff {m : Csr α} {start stop : Nat} (hstop : stop ≤ m.colIdx.size) :
    (m.colIdx.toList.extract start stop).Pairwise (· < ·) ↔
      ∀ slot slot', start ≤ slot → slot < slot' → slot' < stop →
        m.column slot < m.column slot' := by
  have hlength : (m.colIdx.toList.extract start stop).length = stop - start := by
    simp only [List.extract_eq_drop_take', List.length_drop, List.length_take, Array.length_toList]
    omega
  have hget : ∀ k (hk : k < (m.colIdx.toList.extract start stop).length),
      (m.colIdx.toList.extract start stop)[k] = m.column (start + k) := by
    intro k hk
    rw [hlength] at hk
    rw [← getElem_colIdx (by omega)]
    simp [List.extract_eq_drop_take']
  rw [List.pairwise_iff_getElem]
  constructor
  · intro h slot slot' hstart hlt hslot'
    have hpair := h (slot - start) (slot' - start) (by omega) (by omega) (by omega)
    rw [hget, hget] at hpair
    rwa [Nat.add_sub_cancel' hstart, Nat.add_sub_cancel' (by omega)] at hpair
  · intro h i j hi hj hlt
    rw [hget, hget]
    exact h _ _ (by omega) (by omega) (by omega)

/-! ## The two descriptions -/

theorem Sound.wellFormed {m : Csr α} (h : m.Sound) : m.WellFormed := by
  have hsize := h.rowPtr_size
  obtain ⟨last, hlast, hlastEq⟩ := getElem?_rowPtr (m := m) (r := m.rows) (by omega)
  constructor
  case rowPtr_size => exact hsize
  case first_eq =>
    obtain ⟨first, hfirst, hzero⟩ := getElem?_rowPtr (m := m) (r := 0) (by omega)
    rw [h.pointer_zero, ← UInt32.toNat_zero] at hzero
    rw [hfirst, UInt32.toNat_inj.mp hzero]
  case nondecreasing =>
    refine List.pairwise_iff_getElem.mpr fun i j hi hj hlt => ?_
    rw [Array.length_toList] at hi hj
    have hmono := h.pointer_mono (Nat.le_of_lt hlt) (by omega)
    rw [pointer_eq_of_getElem? (Array.getElem?_eq_getElem hi),
      pointer_eq_of_getElem? (Array.getElem?_eq_getElem hj)] at hmono
    exact UInt32.le_iff_toNat_le.mpr hmono
  case last_eq_columns => rw [hlast, Option.map_some, hlastEq, h.colIdx_size]
  case last_eq_values => rw [hlast, Option.map_some, hlastEq, h.values_size]
  case column_lt =>
    -- every column stands in a slot, and every slot lies in a row
    intro col hcol
    obtain ⟨slot, hslot, rfl⟩ := Array.mem_iff_getElem.mp hcol
    obtain ⟨r, hr, hin⟩ := h.exists_inRow (Nat.le_refl _) (h.colIdx_size ▸ hslot)
    rw [getElem_colIdx hslot]
    exact (h.row r hr).column_lt slot hin
  case ascending =>
    intro r hr start stop hstart hstop
    rw [← pointer_eq_of_getElem? hstart, ← pointer_eq_of_getElem? hstop]
    have hbound : m.pointer (r + 1) ≤ m.colIdx.size := by
      rw [h.colIdx_size]
      exact h.pointer_mono hr (Nat.le_refl _)
    refine (extract_colIdx_pairwise_iff hbound).mpr fun slot slot' hge hlt hlt' => ?_
    exact h.column_lt_column hr ⟨hge, Nat.lt_trans hlt hlt'⟩ ⟨by omega, hlt'⟩ hlt

namespace WellFormed

variable {m : Csr α}

theorem pointer_mono (h : m.WellFormed) {r r' : Nat} (hle : r ≤ r') (hr : r' ≤ m.rows) :
    m.pointer r ≤ m.pointer r' := by
  have hsize := h.rowPtr_size
  rcases Nat.eq_or_lt_of_le hle with rfl | hlt
  · exact Nat.le_refl _
  · have hmono := List.pairwise_iff_getElem.mp h.nondecreasing r r'
      (by rw [Array.length_toList]; omega) (by rw [Array.length_toList]; omega) hlt
    rw [pointer_eq_of_getElem? (Array.getElem?_eq_getElem (by omega)),
      pointer_eq_of_getElem? (Array.getElem?_eq_getElem (by omega))]
    exact UInt32.le_iff_toNat_le.mp hmono

theorem colIdx_size (h : m.WellFormed) : m.colIdx.size = m.pointer m.rows := by
  obtain ⟨last, hlast, hsize⟩ := Option.map_eq_some_iff.mp h.last_eq_columns
  rw [← hsize, pointer_eq_of_getElem? hlast]

theorem values_size (h : m.WellFormed) : m.values.size = m.pointer m.rows := by
  obtain ⟨last, hlast, hsize⟩ := Option.map_eq_some_iff.mp h.last_eq_values
  rw [← hsize, pointer_eq_of_getElem? hlast]

theorem rowSound (h : m.WellFormed) {r : Nat} (hr : r < m.rows) : m.RowSound r := by
  have hsize := h.rowPtr_size
  have hbound : m.pointer (r + 1) ≤ m.colIdx.size := by
    rw [h.colIdx_size]
    exact h.pointer_mono hr (Nat.le_refl _)
  obtain ⟨start, hstart, hstartEq⟩ := getElem?_rowPtr (m := m) (r := r) (by omega)
  obtain ⟨stop, hstop, hstopEq⟩ := getElem?_rowPtr (m := m) (r := r + 1) (by omega)
  have hascending := h.ascending r hr start stop hstart hstop
  rw [hstartEq, hstopEq, extract_colIdx_pairwise_iff hbound] at hascending
  refine ⟨h.pointer_mono (Nat.le_succ r) hr, fun slot hin => ?_, fun slot hin hin' => ?_⟩
  · have hslot : slot < m.colIdx.size := Nat.lt_of_lt_of_le hin.2 hbound
    rw [← getElem_colIdx hslot]
    exact h.column_lt _ (Array.getElem_mem hslot)
  · exact hascending slot (slot + 1) hin.1 (Nat.lt_succ_self slot) hin'.2

theorem sound (h : m.WellFormed) : m.Sound where
  rowPtr_size := h.rowPtr_size
  pointer_zero := pointer_eq_of_getElem? h.first_eq
  colIdx_size := h.colIdx_size
  values_size := h.values_size
  row _ hr := h.rowSound hr

end WellFormed

/-- **The layout check accepts exactly the well-formed arrays**, whatever the arrays and the
declared shape are. -/
theorem checkLayout_accepts (m : Csr α) : m.checkLayout = .ok () ↔ m.WellFormed := by
  rw [checkLayout_eq_ok_iff]
  exact ⟨fun h => h.wellFormed, fun h => h.sound⟩

end Csr

end SparseDatasets
