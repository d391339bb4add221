import SparseDatasets.Proofs.RowAccess
import SparseDatasets.Proofs.Symmetry

/-!
# The rows of a sound layout

Two readers share the arrays of a compressed matrix. One takes the span of a row out of both
arrays of slots, the other writes every slot into its cell of a dense matrix. In a sound layout
each span begins where the one before it ends, so the rows lie one behind the other and use up
the slots; and no two slots go to one cell, so what the second reader leaves in a cell is what
the first one finds beside the column in the row.

- `flatMap_extract`: spans that lie one behind the other, put together again.
- `Csr.Sound.hasSpan`, `Csr.Sound.row?_isSome_iff`: the rows of a sound layout are there, and no
  others.
- `Csr.RowCell`: what a row holds for a column.
- `Csr.Sound.rowCell`: a cell that the strict decoder gives is what its row holds.
- `Csr.rows_partition`: the rows partition the slots and agree with the strict decoder.
-/

namespace SparseDatasets

/-- Spans that lie one behind the other from the front, put together again. -/
theorem flatMap_extract {β : Type} {xs : Array β} {pointer : Nat → Nat} {n : Nat}
    (hzero : pointer 0 = 0) (hle : ∀ r < n, pointer r ≤ pointer (r + 1)) :
    (List.range n).flatMap (fun r => (xs.extract (pointer r) (pointer (r + 1))).toList) =
      xs.toList.take (pointer n) := by
  induction n with
  | zero => rw [hzero]; rfl
  | succ n ih =>
    have hbefore : xs.toList.take (pointer n) =
        (xs.toList.take (pointer (n + 1))).take (pointer n) := by
      rw [List.take_take, Nat.min_eq_left (hle n (Nat.lt_succ_self n))]
    rw [List.range_succ, List.flatMap_append, ih fun r hr => hle r (Nat.lt_succ_of_lt hr),
      List.flatMap_singleton, Array.toList_extract, List.extract_eq_drop_take', hbefore,
      List.take_append_drop]

namespace Csr

variable {α : Type} {m : Csr α}

namespace Sound

/-! ## The rows -/

theorem hasSpan (h : m.Sound) {r : Nat} (hr : r < m.rows) :
    ∃ start stop, m.HasSpan r start stop ∧ start.toNat = m.pointer r ∧
      stop.toNat = m.pointer (r + 1) := by
  have hsize := h.rowPtr_size
  obtain ⟨start, hstart, hstartEq⟩ := getElem?_rowPtr (m := m) (r := r) (by omega)
  obtain ⟨stop, hstop, hstopEq⟩ := getElem?_rowPtr (m := m) (r := r + 1) (by omega)
  refine ⟨start, stop, ⟨hstart, hstop, ?_, ?_⟩, hstartEq, hstopEq⟩
  · rw [hstartEq, hstopEq]
    exact (h.row r hr).span_le
  · rw [hstopEq]
    exact h.pointer_le_slotCount hr

/-- A row is its span in both arrays. -/
theorem row?_eq (h : m.Sound) {r : Nat} (hr : r < m.rows) :
    m.row? r = some (m.colIdx.extract (m.pointer r) (m.pointer (r + 1)),
      m.values.extract (m.pointer r) (m.pointer (r + 1))) := by
  obtain ⟨start, stop, hspan, hstart, hstop⟩ := h.hasSpan hr
  rw [hspan.row?_eq, hstart, hstop]

theorem row?_isSome_iff (h : m.Sound) (r : Nat) : (m.row? r).isSome ↔ r < m.rows := by
  have hsize := h.rowPtr_size
  constructor
  · intro hsome
    by_contra hr
    rw [row?_eq_none_of_size_le (by omega)] at hsome
    cases hsome
  · intro hr
    rw [h.row?_eq hr, Option.isSome_some]

/-- The spans of an array that is as long as the last pointer says use it up. -/
theorem flatMap_extract_eq {β : Type} (h : m.Sound) {xs : Array β}
    (hsize : xs.size = m.pointer m.rows) :
    (List.range m.rows).flatMap
      (fun r => (xs.extract (m.pointer r) (m.pointer (r + 1))).toList) = xs.toList := by
  rw [flatMap_extract h.pointer_zero fun r hr => (h.row r hr).span_le, ← hsize,
    ← Array.length_toList, List.take_length]

end Sound

/-! ## What a row holds -/

variable [Element α]

/-- What a row that was read holds for a column: the value beside the column, which stands in the
row once, or zero if it does not stand there. -/
inductive RowCell (columns : Array UInt32) (values : Array α) (col : Nat) : α → Prop where
  | stored {k : Nat} {x : α} :
      columns[k]?.map UInt32.toNat = some col → values[k]? = some x →
      (∀ k', columns[k']?.map UInt32.toNat = some col → k' = k) → RowCell columns values col x
  | empty : (∀ c ∈ columns, c.toNat ≠ col) → RowCell columns values col 0

theorem RowCell.unique {columns : Array UInt32} {values : Array α} {col : Nat} {x y : α}
    (hx : RowCell columns values col x) (hy : RowCell columns values col y) : x = y := by
  have hmem : ∀ {k : Nat}, columns[k]?.map UInt32.toNat = some col →
      ∃ c ∈ columns, c.toNat = col := by
    intro k hk
    obtain ⟨c, hc, hcol⟩ := Option.map_eq_some_iff.mp hk
    exact ⟨c, Array.mem_of_getElem? hc, hcol⟩
  cases hx with
  | stored hk hvalue hunique =>
    cases hy with
    | stored hk' hvalue' _ =>
      rw [hunique _ hk', hvalue] at hvalue'
      exact Option.some.inj hvalue'
    | empty hnone =>
      obtain ⟨c, hc, hcol⟩ := hmem hk
      exact absurd hcol (hnone c hc)
  | empty hnone =>
    cases hy with
    | stored hk _ _ =>
      obtain ⟨c, hc, hcol⟩ := hmem hk
      exact absurd hcol (hnone c hc)
    | empty _ => rfl

namespace Sound

omit [Element α] in
/-- A place in the span of a row has the column iff its slot holds the cell. -/
theorem getElem?_extract_eq_some_iff (h : m.Sound) {r col k : Nat} (hr : r < m.rows) :
    (m.colIdx.extract (m.pointer r) (m.pointer (r + 1)))[k]?.map UInt32.toNat = some col ↔
      m.Holds r col (m.pointer r + k) := by
  have hstop : m.pointer (r + 1) ≤ m.colIdx.size := by
    rw [h.colIdx_size]
    exact h.pointer_mono hr (Nat.le_refl _)
  rw [Array.getElem?_extract, Nat.min_eq_left hstop]
  by_cases hk : k < m.pointer (r + 1) - m.pointer r
  · have hslot : m.pointer r + k < m.colIdx.size := by omega
    rw [if_pos hk, Array.getElem?_eq_getElem hslot, getElem_colIdx hslot, Option.map_some,
      Option.some.injEq, Holds]
    exact (and_iff_right ⟨by omega, by omega⟩).symm
  · rw [if_neg hk]
    refine iff_of_false (by simp) fun hslot => ?_
    have := hslot.1.2
    omega

/-- **A cell that the strict decoder gives is what its row holds for its column.** -/
theorem rowCell (h : m.Sound) {cells : Array α} (hcells : m.Decodes cells) {r col : Nat}
    (hr : r < m.rows) (hcol : col < m.cols) {x : α} :
    cells[r * m.cols + col]? = some x ↔
      RowCell (m.colIdx.extract (m.pointer r) (m.pointer (r + 1)))
        (m.values.extract (m.pointer r) (m.pointer (r + 1))) col x := by
  -- whatever is in the cell, the row holds it, and the row holds one thing only
  have hheld : ∃ y, cells[r * m.cols + col]? = some y ∧
      RowCell (m.colIdx.extract (m.pointer r) (m.pointer (r + 1)))
        (m.values.extract (m.pointer r) (m.pointer (r + 1))) col y := by
    by_cases hslot : ∃ slot, m.Holds r col slot
    · obtain ⟨slot, hslot⟩ := hslot
      obtain ⟨k, rfl⟩ := Nat.exists_eq_add_of_le hslot.1.1
      have hvalue := (h.stores_of_holds hr hslot).value_eq
      have hstop : m.pointer r + k < m.pointer (r + 1) := hslot.1.2
      refine ⟨_, hcells.held r hr col hcol _ hslot,
        .stored ((h.getElem?_extract_eq_some_iff hr).mpr hslot) ?_ fun k' hk' => ?_⟩
      · have hsize := (Array.getElem?_eq_some_iff.mp hvalue).1
        rw [Array.getElem?_extract, if_pos (by omega), hvalue]
      · have := h.holds_unique hr ((h.getElem?_extract_eq_some_iff hr).mp hk') hslot
        omega
    · refine ⟨0, hcells.empty r hr col hcol (not_exists.mp hslot), .empty fun c hc heq => hslot ?_⟩
      obtain ⟨k, hk⟩ := Array.getElem?_of_mem hc
      exact ⟨_, (h.getElem?_extract_eq_some_iff hr).mp (by rw [hk, Option.map_some, heq])⟩
  obtain ⟨y, hy, hrow⟩ := hheld
  rw [hy, Option.some.injEq]
  constructor
  · rintro rfl
    exact hrow
  · exact hrow.unique

end Sound

/-- **The rows of an accepted layout partition its slots and agree with the strict decoder.** The
rows of the shape are there and no others, put one behind the other they are both arrays of slots,
and the strict decoder gives a matrix of the shape with all its cells, each of which is what its
row holds for its column. -/
theorem rows_partition (h : m.checkLayout = .ok ()) (hword : m.rows * m.cols < wordLimit) :
    (∀ r, (m.row? r).isSome ↔ r < m.rows) ∧
    (∃ parts : List (Array UInt32 × Array α), (List.range m.rows).map m.row? = parts.map some ∧
      (∀ part ∈ parts, part.1.size = part.2.size) ∧
      (parts.flatMap fun part => part.1.toList) = m.colIdx.toList ∧
      (parts.flatMap fun part => part.2.toList) = m.values.toList) ∧
    ∃ d, m.toDense = .ok (.ok d) ∧ d.rows = m.rows ∧ d.cols = m.cols ∧
      d.cells.size = m.rows * m.cols ∧
      ∀ r < m.rows, ∀ col < m.cols, ∃ columns values, m.row? r = some (columns, values) ∧
        ∀ x, d.get r col = .ok x ↔ RowCell columns values col x := by
  have hm : m.Sound := checkLayout_eq_ok_iff.mp h
  refine ⟨hm.row?_isSome_iff, ⟨(List.range m.rows).map fun r =>
    (m.colIdx.extract (m.pointer r) (m.pointer (r + 1)),
      m.values.extract (m.pointer r) (m.pointer (r + 1))), ?_, ?_, ?_, ?_⟩, ?_⟩
  · rw [List.map_map]
    exact List.map_congr_left fun r hr => hm.row?_eq (List.mem_range.mp hr)
  · refine List.forall_mem_map.mpr fun r _ => ?_
    rw [Array.size_extract, Array.size_extract, hm.colIdx_size, hm.values_size]
  · rw [List.flatMap_map]
    exact hm.flatMap_extract_eq hm.colIdx_size
  · rw [List.flatMap_map]
    exact hm.flatMap_extract_eq hm.values_size
  · obtain ⟨cells, hdense, hcells⟩ := hm.toDense hword
    have hd : (⟨m.rows, m.cols, cells⟩ : Dense α).WellShaped :=
      ⟨hcells.size_eq, hcells.size_eq ▸ hword⟩
    refine ⟨_, hdense, rfl, rfl, hcells.size_eq, fun r hr col hcol =>
      ⟨_, _, hm.row?_eq hr, fun x => ?_⟩⟩
    rw [hd.get_eq_ok_iff hr hcol]
    exact hm.rowCell hcells hr hcol

/-- Empty rows in front, between the others and at the end, a NaN, and a negative zero that is
stored. -/
theorem rows_partition_empty_rows :
    let m : Csr Binary64 := ⟨4, 3, #[0, 0, 2, 2, 3], #[0, 2, 1],
      #[.nan, ⟨0x8000000000000000⟩, ⟨0x3ff0000000000000⟩]⟩
    m.checkLayout = .ok () ∧ m.rows * m.cols < wordLimit ∧
      (m.row? 3).isSome ∧ ¬ (m.row? 4).isSome ∧
      m.row? 1 = some (#[0, 2], #[.nan, ⟨0x8000000000000000⟩]) ∧
      ∃ d, m.toDense = .ok (.ok d) ∧ d.cells.size = 12 ∧ d.get 1 0 = .ok .nan ∧
        d.get 1 1 = .ok 0 ∧ d.get 1 2 = .ok ⟨0x8000000000000000⟩ := by
  intro m
  have hlayout : m.checkLayout = .ok () := by decide +kernel
  have hword : m.rows * m.cols < wordLimit := by decide
  have hrow : m.row? 1 = some (#[0, 2], #[.nan, ⟨0x8000000000000000⟩]) := by decide +kernel
  obtain ⟨hrows, -, d, hdense, -, -, hsize, hcells⟩ := rows_partition hlayout hword
  have hcell : ∀ col < m.cols, ∀ x,
      d.get 1 col = .ok x ↔ RowCell #[0, 2] #[.nan, ⟨0x8000000000000000⟩] col x := by
    intro col hcol
    obtain ⟨columns, values, heq, hcell⟩ := hcells 1 (by decide) col hcol
    cases hrow.symm.trans heq
    exact hcell
  have hplace : ∀ {col k : Nat}, (#[0, 2] : Array UInt32)[k]?.map UInt32.toNat = some col →
      k < 2 := by
    intro col k hk
    obtain ⟨c, hc, -⟩ := Option.map_eq_some_iff.mp hk
    exact (Array.getElem?_eq_some_iff.mp hc).1
  refine ⟨hlayout, hword, (hrows 3).mpr (by decide), fun h => absurd ((hrows 4).mp h) (by decide),
    hrow, d, hdense, hsize, (hcell 0 (by decide) _).mpr (.stored (k := 0) rfl rfl ?_),
    (hcell 1 (by decide) _).mpr (.empty (by simp)),
    (hcell 2 (by decide) _).mpr (.stored (k := 1) rfl rfl ?_)⟩
  · intro k hk
    rcases Nat.lt_succ_iff_lt_or_eq.mp (hplace hk) with hlt | rfl
    · omega
    · cases hk
  · intro k hk
    rcases Nat.lt_succ_iff_lt_or_eq.mp (hplace hk) with hlt | rfl
    · obtain rfl : k = 0 := by omega
      cases hk
    · rfl

end Csr

end SparseDatasets
