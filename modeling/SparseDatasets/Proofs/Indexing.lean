import SparseDatasets.Matrix.Csr
import SparseDatasets.Proofs.Offsets

/-!
# Index arrays and the offsets they stand for

The row pointers and the columns of a compressed matrix are another way to write
an ascending list of offsets: slot `k` lies at the `k`-th offset. `Csr.Indexes`
is the definition found in textbooks, which counts the offsets before a row and
divides for the column. The encoder and the layout check are both measured
against it.

- `Csr.Indexes`: the index arrays stand for a list of offsets.
- `Csr.InRow`, `Csr.Holds`: a slot lies in the span of a row, or holds the entry of a cell.
- `Csr.Indexes.inRow_iff`: a slot lies in the row of its offset.
- `Csr.Indexes.holds_iff`: a slot holds the entry of the cell at its offset.
- `Csr.Indexes.row?_eq`: what a row holds.
- `Csr.Indexes.unique`: the offsets determine the index arrays.
-/

namespace SparseDatasets

namespace Csr

variable {α : Type}

/-- The slot lies in the span of the row. -/
def InRow (m : Csr α) (row slot : Nat) : Prop :=
  m.pointer row ≤ slot ∧ slot < m.pointer (row + 1)

/-- The slot holds an entry of the cell. -/
def Holds (m : Csr α) (row col slot : Nat) : Prop :=
  m.InRow row slot ∧ (m.column slot).toNat = col

/-- The index arrays stand for a list of offsets, as textbooks define compressed rows. -/
structure Indexes (m : Csr α) (positions : List Nat) : Prop where
  /-- There is one pointer for each row and one for the end, and each counts the offsets that
  lie before it. -/
  rowPtr_eq : m.rowPtr.toList.map UInt32.toNat =
    (List.range (m.rows + 1)).map fun r => positions.countP (· < r * m.cols)
  /-- The column of a slot is that of its offset. -/
  colIdx_eq : m.colIdx.toList.map UInt32.toNat = positions.map (· % m.cols)

theorem pointer_eq_of_getElem? {m : Csr α} {r : Nat} {x : UInt32} (h : m.rowPtr[r]? = some x) :
    m.pointer r = x.toNat := by
  simp [pointer, Array.getD_eq_getD_getElem?, h]

theorem getElem?_rowPtr {m : Csr α} {r : Nat} (hr : r < m.rowPtr.size) :
    ∃ pointer, m.rowPtr[r]? = some pointer ∧ pointer.toNat = m.pointer r :=
  ⟨m.rowPtr[r], Array.getElem?_eq_getElem hr,
    (pointer_eq_of_getElem? (Array.getElem?_eq_getElem hr)).symm⟩

theorem getElem_colIdx {m : Csr α} {slot : Nat} (hslot : slot < m.colIdx.size) :
    m.colIdx[slot] = m.column slot := by
  simp [column, Array.getD, hslot]

/-- A row is there if its two pointers are, and if its span runs forwards and inside both
arrays. -/
theorem row?_eq_some {m : Csr α} {r : Nat} (hr : r + 1 < m.rowPtr.size)
    (hle : m.pointer r ≤ m.pointer (r + 1)) (hcol : m.pointer (r + 1) ≤ m.colIdx.size)
    (hval : m.pointer (r + 1) ≤ m.values.size) :
    m.row? r = some (m.colIdx.extract (m.pointer r) (m.pointer (r + 1)),
      m.values.extract (m.pointer r) (m.pointer (r + 1))) := by
  have hstart : m.rowPtr[r]? = some m.rowPtr[r] := Array.getElem?_eq_getElem (by omega)
  have hstop : m.rowPtr[r + 1]? = some m.rowPtr[r + 1] := Array.getElem?_eq_getElem hr
  rw [pointer_eq_of_getElem? hstart, pointer_eq_of_getElem? hstop] at *
  simp [row?, hstart, hstop, hle, hcol, hval]

namespace Indexes

variable {m : Csr α} {positions : List Nat}

/-! ## Pointers and columns -/

theorem rowPtr_size (h : m.Indexes positions) : m.rowPtr.size = m.rows + 1 := by
  simpa using congrArg List.length h.rowPtr_eq

theorem colIdx_size (h : m.Indexes positions) : m.colIdx.size = positions.length := by
  simpa using congrArg List.length h.colIdx_eq

theorem pointer_eq (h : m.Indexes positions) {r : Nat} (hr : r ≤ m.rows) :
    m.pointer r = positions.countP (· < r * m.cols) := by
  have hget := congrArg (·[r]?) h.rowPtr_eq
  have hsize : r < m.rowPtr.size := by rw [h.rowPtr_size]; omega
  simp only [List.getElem?_map, Array.getElem?_toList, Array.getElem?_eq_getElem hsize,
    List.getElem?_range (Nat.lt_succ_of_le hr), Option.map_some, Option.some.injEq] at hget
  rw [pointer_eq_of_getElem? (Array.getElem?_eq_getElem hsize), hget]

theorem column_eq (h : m.Indexes positions) {k : Nat} (hk : k < positions.length) :
    (m.column k).toNat = positions[k] % m.cols := by
  have hget := congrArg (·[k]?) h.colIdx_eq
  have hsize : k < m.colIdx.size := by rw [h.colIdx_size]; exact hk
  simp only [List.getElem?_map, Array.getElem?_toList, Array.getElem?_eq_getElem hsize,
    List.getElem?_eq_getElem hk, Option.map_some, Option.some.injEq] at hget
  rw [column, Array.getD_eq_getD_getElem?, Array.getElem?_eq_getElem hsize, Option.getD_some, hget]

theorem pointer_mono (h : m.Indexes positions) {r r' : Nat} (hle : r ≤ r') (hr : r' ≤ m.rows) :
    m.pointer r ≤ m.pointer r' := by
  rw [h.pointer_eq (by omega), h.pointer_eq hr]
  refine List.countP_mono_left fun i _ hi => ?_
  have := Nat.mul_le_mul_right m.cols hle
  simp only [decide_eq_true_eq] at hi ⊢
  omega

theorem pointer_le (h : m.Indexes positions) {r : Nat} (hr : r ≤ m.rows) :
    m.pointer r ≤ positions.length := by
  rw [h.pointer_eq hr]
  exact List.countP_le_length

/-- The last pointer is the number of offsets. -/
theorem pointer_rows (h : m.Indexes positions) (hin : ∀ i ∈ positions, i < m.rows * m.cols) :
    m.pointer m.rows = positions.length := by
  rw [h.pointer_eq (Nat.le_refl _), List.countP_eq_length]
  intro i hi
  simpa using hin i hi

/-! ## Rows -/

/-- A slot lies in the row of its offset and in no other. -/
theorem inRow_iff (h : m.Indexes positions) (hasc : positions.Pairwise (· < ·))
    (hcols : 0 < m.cols) {r k : Nat} (hr : r < m.rows) (hk : k < positions.length) :
    m.InRow r k ↔ positions[k] / m.cols = r := by
  have hstart := lt_countP_iff id hasc (r * m.cols) hk
  have hstop := lt_countP_iff id hasc ((r + 1) * m.cols) hk
  simp only [id_eq] at hstart hstop
  rw [InRow, h.pointer_eq (Nat.le_of_lt hr), h.pointer_eq (Nat.succ_le_of_lt hr),
    ← Nat.not_lt, hstart, hstop, Nat.not_lt, div_eq_row_iff hcols]

/-- A slot holds the entry of a cell iff it lies at the offset of the cell. -/
theorem holds_iff (h : m.Indexes positions) (hasc : positions.Pairwise (· < ·)) {i j k : Nat}
    (hi : i < m.rows) (hj : j < m.cols) :
    m.Holds i j k ↔ positions[k]? = some (i * m.cols + j) := by
  have hcols : 0 < m.cols := Nat.zero_lt_of_lt hj
  rw [List.getElem?_eq_some_iff]
  constructor
  · rintro ⟨hin, hcol⟩
    have hk : k < positions.length := Nat.lt_of_lt_of_le hin.2 (h.pointer_le hi)
    refine ⟨hk, ?_⟩
    rw [h.column_eq hk] at hcol
    rw [← Nat.div_add_mod' positions[k] m.cols, (h.inRow_iff hasc hcols hi hk).mp hin, hcol]
  · rintro ⟨hk, hoffset⟩
    refine ⟨(h.inRow_iff hasc hcols hi hk).mpr ?_, ?_⟩
    · rw [hoffset, offset_div i hj]
    · rw [h.column_eq hk, hoffset, offset_mod i hj]

/-- A row holds the columns of the offsets that lie in it, and the values at these offsets. -/
theorem row?_eq (h : m.Indexes positions) (hasc : positions.Pairwise (· < ·))
    (hcols : 0 < m.cols) (hval : m.values.size = positions.length) {r : Nat} (hr : r < m.rows) :
    ∃ columns values, m.row? r = some (columns, values) ∧
      columns.toList.map UInt32.toNat =
        (positions.filter fun i => i / m.cols = r).map (· % m.cols) ∧
      values.toList =
        ((positions.zip m.values.toList).filter fun cell => cell.1 / m.cols = r).map (·.2) := by
  have hstop := h.pointer_le (Nat.succ_le_of_lt hr)
  refine ⟨_, _, row?_eq_some (by rw [h.rowPtr_size]; omega)
    (h.pointer_mono (by omega) (Nat.succ_le_of_lt hr)) (by rw [h.colIdx_size]; exact hstop)
    (by rw [hval]; exact hstop), ?_, ?_⟩
  · have hspan := filter_row_eq id hasc hcols r
    simp only [id_eq, ← h.pointer_eq (Nat.le_of_lt hr),
      ← h.pointer_eq (Nat.succ_le_of_lt hr)] at hspan
    rw [hspan, Array.toList_extract, List.extract_eq_drop_take', List.map_drop, List.map_take,
      h.colIdx_eq, ← List.map_take, ← List.map_drop]
  · have hspan := filter_zip_row_eq hasc hval hcols r
    simp only [← h.pointer_eq (Nat.le_of_lt hr), ← h.pointer_eq (Nat.succ_le_of_lt hr)] at hspan
    rw [hspan, Array.toList_extract, List.extract_eq_drop_take']

/-! ## Uniqueness -/

/-- The offsets determine the index arrays. -/
theorem unique {β : Type} {n : Csr β} (hm : m.Indexes positions) (hn : n.Indexes positions)
    (hrows : m.rows = n.rows) (hcols : m.cols = n.cols) :
    m.rowPtr = n.rowPtr ∧ m.colIdx = n.colIdx := by
  have hinj : Function.Injective UInt32.toNat := fun _ _ h => UInt32.toNat_inj.mp h
  constructor
  · refine Array.toList_inj.mp (List.map_injective_iff.mpr hinj ?_)
    rw [hm.rowPtr_eq, hn.rowPtr_eq, hrows, hcols]
  · refine Array.toList_inj.mp (List.map_injective_iff.mpr hinj ?_)
    rw [hm.colIdx_eq, hn.colIdx_eq, hcols]

end Indexes

end Csr

end SparseDatasets
