import SparseDatasets.Proofs.Layout

/-!
# Decoding

Both decoders write the stored entries one after the other into a field of
zeros. What they leave in a cell is the value of the last entry there, and the
arrays of a sound layout have one entry at most for each cell, so the order does
not matter for them and both decoders give the same cells.

- `Csr.lastAt?`: the value of the last entry at a cell.
- `Csr.decodeLoosely_eq_ok`: the loose decoder never fails, and what it leaves.
- `Csr.Decodes`: the cells that the arrays stand for.
- `Csr.Sound.decodeLoosely`, `Csr.Sound.toDense`: both decoders on sound layouts.
-/

namespace SparseDatasets

/-! ## Writing entries -/

namespace Csr

variable {α : Type}

/-- The value of the last entry at a cell. -/
def lastAt? (row col : Nat) : List (Nat × Nat × α) → Option α
  | [] => none
  | (i, j, x) :: rest => (lastAt? row col rest).or (if i = row ∧ j = col then some x else none)

theorem mem_of_lastAt? {row col : Nat} {entries : List (Nat × Nat × α)} {x : α}
    (h : lastAt? row col entries = some x) : (row, col, x) ∈ entries := by
  induction entries with
  | nil => cases h
  | cons entry rest ih =>
    obtain ⟨i, j, y⟩ := entry
    rw [lastAt?, Option.or_eq_some_iff] at h
    rcases h with h | ⟨-, h⟩
    · exact List.mem_cons_of_mem _ (ih h)
    · split at h
      · rename_i hcell
        obtain ⟨rfl, rfl⟩ := hcell
        cases h
        exact List.mem_cons_self
      · cases h

theorem lastAt?_eq_none_iff {row col : Nat} {entries : List (Nat × Nat × α)} :
    lastAt? row col entries = none ↔ ∀ x, (row, col, x) ∉ entries := by
  induction entries with
  | nil => simp [lastAt?]
  | cons entry rest ih =>
    obtain ⟨i, j, y⟩ := entry
    rw [lastAt?, Option.or_eq_none_iff, ih]
    by_cases hcell : i = row ∧ j = col
    · obtain ⟨rfl, rfl⟩ := hcell
      simp only [and_self, ↓reduceIte, reduceCtorEq, and_false, false_iff, not_forall, not_not]
      exact ⟨y, List.mem_cons_self⟩
    · have hother : ∀ x, (row, col, x) ≠ (i, j, y) := by
        rintro x heq
        cases heq
        exact hcell ⟨rfl, rfl⟩
      simp [hcell, hother]

end Csr

namespace Dense

variable {α : Type} {rows cols : Nat}

/-- Writing entries that lie inside a shape never fails, and leaves the last entry of every cell
or what was there before. -/
theorem foldlM_writeCell {entries : List (Nat × Nat × α)} {cells : Array α}
    (hword : rows * cols < wordLimit) (hsize : cells.size = rows * cols)
    (hin : ∀ entry ∈ entries, entry.1 < rows ∧ entry.2.1 < cols) :
    ∃ out, entries.foldlM
        (fun cells (row, col, x) => writeCell cells (offset cols row col) x) cells = .ok out ∧
      out.size = rows * cols ∧
      ∀ i < rows, ∀ j < cols,
        out[i * cols + j]? = (Csr.lastAt? i j entries).or cells[i * cols + j]? := by
  induction entries generalizing cells with
  | nil => exact ⟨cells, rfl, hsize, fun i _ j _ => by simp [Csr.lastAt?]⟩
  | cons entry rest ih =>
    obtain ⟨row, col, x⟩ := entry
    obtain ⟨hrow, hcol⟩ := hin _ List.mem_cons_self
    have hplace : row * cols + col < cells.size := hsize ▸ offset_lt hrow hcol
    have hset : (cells.set (row * cols + col) x hplace).size = rows * cols := by
      rw [Array.size_set, hsize]
    obtain ⟨out, hfold, hout, hcells⟩ := ih hset fun e he => hin e (List.mem_cons_of_mem _ he)
    refine ⟨out, ?_, hout, fun i hi j hj => ?_⟩
    · rw [List.foldlM_cons]
      simp only [writeCell, offset_eq hrow hcol hword, hplace, ↓reduceDIte]
      exact hfold
    · -- the entries after this one stay, and this one hides what was there
      rw [hcells i hi j hj, Csr.lastAt?, Option.or_assoc, Array.getElem?_set,
        if_congr (offset_inj hcol hj) rfl rfl]
      split <;> simp

/-- Setting cells of a matrix writes entries into its cells. -/
theorem foldlM_set {entries : List (Nat × Nat × α)} {cells : Array α}
    (hin : ∀ entry ∈ entries, entry.1 < rows ∧ entry.2.1 < cols) :
    entries.foldlM (fun (d : Dense α) (row, col, x) => d.set row col x) ⟨rows, cols, cells⟩ =
      (entries.foldlM (fun cells ((row, col, x) : Nat × Nat × α) =>
        writeCell cells (offset cols row col) x) cells).map fun out => ⟨rows, cols, out⟩ := by
  induction entries generalizing cells with
  | nil => rfl
  | cons entry rest ih =>
    obtain ⟨row, col, x⟩ := entry
    have hcell := hin _ List.mem_cons_self
    rw [List.foldlM_cons, List.foldlM_cons]
    simp only [set, hcell, and_self, ↓reduceIte]
    cases writeCell cells (offset cols row col) x with
    | error fault => rfl
    | ok out => exact ih fun e he => hin e (List.mem_cons_of_mem _ he)

end Dense

namespace Csr

variable {α : Type} [Element α]

/-! ## The loose decoder -/

theorem mem_span {m : Csr α} {r start stop : Nat} {entry : Nat × Nat × α} :
    entry ∈ m.span r start stop ↔
      ∃ slot, start ≤ slot ∧ slot < stop ∧ entry = (r, (m.column slot).toNat, m.value slot) := by
  rw [span, List.mem_map]
  constructor
  · rintro ⟨slot, hslot, rfl⟩
    have := List.mem_range'_1.mp hslot
    exact ⟨slot, by omega, by omega, rfl⟩
  · rintro ⟨slot, hge, hlt, rfl⟩
    exact ⟨slot, List.mem_range'_1.mpr (by omega), rfl⟩

theorem looseEntries_inside {m : Csr α} {rows cols : Nat} :
    ∀ entry ∈ m.looseEntries rows cols, entry.1 < rows ∧ entry.2.1 < cols := by
  intro entry hentry
  obtain ⟨r, hr, hspan⟩ := List.mem_flatMap.mp hentry
  obtain ⟨hmem, hcol⟩ := List.mem_filter.mp hspan
  obtain ⟨slot, -, -, rfl⟩ := mem_span.mp hmem
  have := List.mem_range.mp hr
  exact ⟨by show r < rows; omega, by simpa using hcol⟩

/-- **The loose decoder never fails**: it gives a cell for each cell of the shape, with the last
entry that the arrays place there, or zero. -/
theorem decodeLoosely_eq_ok {m : Csr α} {rows cols : Nat} (hword : rows * cols < wordLimit) :
    ∃ cells, m.decodeLoosely rows cols = .ok cells ∧ cells.size = rows * cols ∧
      ∀ i < rows, ∀ j < cols,
        cells[i * cols + j]? = some ((lastAt? i j (m.looseEntries rows cols)).getD 0) := by
  have hcount : cellCount rows cols = rows * cols := Nat.mod_eq_of_lt hword
  have hzeros : (Array.replicate (cellCount rows cols) (0 : α)).size = rows * cols := by
    rw [Array.size_replicate, hcount]
  obtain ⟨cells, hdecode, hsize, hcells⟩ :=
    Dense.foldlM_writeCell hword hzeros (looseEntries_inside (m := m))
  refine ⟨cells, hdecode, hsize, fun i hi j hj => ?_⟩
  rw [hcells i hi j hj, Array.getElem?_replicate, hcount, if_pos (offset_lt hi hj)]
  cases lastAt? i j (m.looseEntries rows cols) <;> rfl

/-! ## Cells of a sound layout -/

/-- The cells that the arrays stand for: the value of the slot of a cell, and zero where there is
none. -/
structure Decodes (m : Csr α) (cells : Array α) : Prop where
  size_eq : cells.size = m.rows * m.cols
  held : ∀ i < m.rows, ∀ j < m.cols, ∀ slot, m.Holds i j slot →
    cells[i * m.cols + j]? = some (m.value slot)
  empty : ∀ i < m.rows, ∀ j < m.cols, (∀ slot, ¬ m.Holds i j slot) →
    cells[i * m.cols + j]? = some 0

theorem mem_entries {m : Csr α} {row col : Nat} {x : α} :
    (row, col, x) ∈ m.entries ↔ row < m.rows ∧ ∃ slot, m.Holds row col slot ∧ m.value slot = x := by
  rw [entries, List.mem_flatMap]
  constructor
  · rintro ⟨r, hr, hspan⟩
    obtain ⟨slot, hge, hlt, heq⟩ := mem_span.mp hspan
    cases heq
    exact ⟨List.mem_range.mp hr, slot, ⟨⟨hge, hlt⟩, rfl⟩, rfl⟩
  · rintro ⟨hrow, slot, ⟨⟨hge, hlt⟩, rfl⟩, rfl⟩
    exact ⟨row, List.mem_range.mpr hrow, mem_span.mpr ⟨slot, hge, hlt, rfl⟩⟩

/-- An empty cell has no entry. -/
theorem lastAt?_entries_of_empty {m : Csr α} {row col : Nat}
    (h : ∀ slot, ¬ m.Holds row col slot) : lastAt? row col m.entries = none := by
  refine lastAt?_eq_none_iff.mpr fun x hmem => ?_
  obtain ⟨-, slot, hslot, -⟩ := mem_entries.mp hmem
  exact h slot hslot

namespace Sound

variable {m : Csr α}

/-- The one entry of a cell is the last one. -/
theorem lastAt?_entries (h : m.Sound) {row col slot : Nat} (hrow : row < m.rows)
    (hslot : m.Holds row col slot) : lastAt? row col m.entries = some (m.value slot) := by
  cases hlast : lastAt? row col m.entries with
  | none =>
    exact absurd (mem_entries.mpr ⟨hrow, slot, hslot, rfl⟩) (lastAt?_eq_none_iff.mp hlast _)
  | some x =>
    -- an entry of the cell comes from a slot of the cell, and there is only one
    obtain ⟨-, slot', hslot', rfl⟩ := mem_entries.mp (mem_of_lastAt? hlast)
    rw [h.holds_unique hrow hslot hslot']

theorem entries_inside (h : m.Sound) :
    ∀ entry ∈ m.entries, entry.1 < m.rows ∧ entry.2.1 < m.cols := by
  rintro ⟨row, col, x⟩ hentry
  obtain ⟨hrow, slot, ⟨hin, rfl⟩, -⟩ := mem_entries.mp hentry
  exact ⟨hrow, (h.row row hrow).column_lt slot hin⟩

/-- A sound layout gives the loose decoder nothing to skip. -/
theorem looseEntries_eq (h : m.Sound) : m.looseEntries m.rows m.cols = m.entries := by
  have hrows : min m.rows (m.rowPtr.size - 1) = m.rows := by
    rw [h.rowPtr_size, Nat.add_sub_cancel, Nat.min_self]
  rw [looseEntries, entries, hrows]
  refine List.flatMap_congr fun r hr => ?_
  have hr : r < m.rows := List.mem_range.mp hr
  have hslots : m.pointer (r + 1) ≤ m.slotCount := h.pointer_le_slotCount hr
  rw [Nat.min_eq_left (Nat.le_trans (h.row r hr).span_le hslots), Nat.min_eq_left hslots]
  refine List.filter_eq_self.mpr fun entry hentry => ?_
  obtain ⟨slot, hge, hlt, rfl⟩ := mem_span.mp hentry
  simpa using (h.row r hr).column_lt slot ⟨hge, hlt⟩

theorem decodeLoosely (h : m.Sound) (hword : m.rows * m.cols < wordLimit) :
    ∃ cells, m.decodeLoosely m.rows m.cols = .ok cells ∧ m.Decodes cells := by
  obtain ⟨cells, hdecode, hsize, hcells⟩ := decodeLoosely_eq_ok (m := m) hword
  rw [h.looseEntries_eq] at hcells
  refine ⟨cells, hdecode, hsize, fun i hi j hj slot hslot => ?_, fun i hi j hj hempty => ?_⟩
  · rw [hcells i hi j hj, h.lastAt?_entries hi hslot, Option.getD_some]
  · rw [hcells i hi j hj, lastAt?_entries_of_empty hempty, Option.getD_none]

/-- The strict decoder gives the cells of the loose one. -/
theorem toDense_eq (h : m.Sound) :
    m.toDense = (m.decodeLoosely m.rows m.cols).map fun cells => .ok ⟨m.rows, m.cols, cells⟩ := by
  rw [Csr.toDense, checkLayout_eq_ok_iff.mpr h, Csr.decodeLoosely, h.looseEntries_eq]
  simp only [Dense.zeros]
  rw [Dense.foldlM_set h.entries_inside]
  cases m.entries.foldlM
    (fun cells (row, col, x) => Dense.writeCell cells (Dense.offset m.cols row col) x)
    (Array.replicate (cellCount m.rows m.cols) 0) <;> rfl

theorem toDense (h : m.Sound) (hword : m.rows * m.cols < wordLimit) :
    ∃ cells, m.toDense = .ok (.ok ⟨m.rows, m.cols, cells⟩) ∧ m.Decodes cells := by
  obtain ⟨cells, hdecode, hcells⟩ := h.decodeLoosely hword
  refine ⟨cells, ?_, hcells⟩
  rw [h.toDense_eq, hdecode]
  rfl

end Sound

end Csr

end SparseDatasets
