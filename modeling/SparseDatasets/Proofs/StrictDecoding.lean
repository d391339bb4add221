import SparseDatasets.Proofs.Construction

/-!
# The strict decoder and shapes that do not fit a word

The layout check holds the rows to the number of pointers, but it lets any number of
columns pass, so a layout may be sound although its cells cannot be counted by a word.
The strict decoder asks for no more than a sound layout. Here it is written a second
time with a guard at every step; the count of the cells is the only guard that can
fail. Where it does, the decoder itself goes on with what is left of the count: an entry
then finds no cell, or the matrix has fewer cells than its shape says.

- `Guarded.toDense`: the strict decoder with guards.
- `Guarded.placeRows_eq`: on a sound layout it does what the loose decoder does.
- `Guarded.toDense_of_overflow`, `Guarded.toDense_of_fits`: what its guards say.
- `Csr.DecodesCleanly`: an error, or all the cells of the shape.
- `Csr.Overruns`: an entry lies beyond what is left of the count.
- `Csr.Sound.toDense_eq_error_iff`: an entry finds no cell; `Csr.Sound.decodesCleanly_iff`.
- `Csr.toDense_outcomes`: which arrays are decoded cleanly, and what happens to the others.
-/

namespace SparseDatasets

variable {α δ : Type} [Element α]

namespace Guarded

/-! ## The decoder with guards -/

/-- Puts the value of a slot into its cell. -/
def placeSlot (m : Csr α) (row : Nat) (cells : Array α) (slot : Nat) : Guarded δ (Array α) := do
  let x ← read m.values slot
  let col ← read m.colIdx slot
  if row < m.rows ∧ col.toNat < m.cols then
    fits (row * m.cols)
    fits (row * m.cols + col.toNat)
    write cells (row * m.cols + col.toNat) x
  else .error (.fault (.cell row col.toNat))

def placeRow (m : Csr α) (cells : Array α) (row : Nat) : Guarded δ (Array α) := do
  let start ← read m.rowPtr row
  fits (row + 1)
  let stop ← read m.rowPtr (row + 1)
  (List.range' start.toNat (stop.toNat - start.toNat)).foldlM (placeSlot m row) cells

/-- The cells are counted before they are made. -/
def toDense (m : Csr α) : Guarded MatrixError (Dense α) :=
  match checkLayout m with
  | .error (.defect defect) => .error (.defect (.layout defect))
  | .error (.fault fault) => .error (.fault fault)
  | .ok () => do
    fits (m.rows * m.cols)
    let cells ← (List.range m.rows).foldlM (placeRow m) (Array.replicate (m.rows * m.cols) 0)
    return ⟨m.rows, m.cols, cells⟩

variable {m : Csr α} {row : Nat}

/-! ## Sound layouts -/

omit [Element α] in
/-- A slot of a sound row has a value and a column inside the shape, so there is nothing to skip. -/
theorem placeSlot_eq (h : m.Sound) (hrow : row < m.rows) {slot : Nat} (hslot : m.InRow row slot)
    (cells : Array α) :
    (placeSlot m row cells slot : Guarded δ _) = decodeSlot m m.cols row cells slot := by
  have hlt : slot < m.pointer m.rows := h.inRow_lt (Nat.le_refl _) hrow hslot
  have hcol : (m.column slot).toNat < m.cols := (h.row row hrow).column_lt slot hslot
  obtain ⟨x, hx⟩ : ∃ x, m.values[slot]? = some x :=
    ⟨_, Array.getElem?_eq_getElem (by rw [h.values_size]; exact hlt)⟩
  rw [placeSlot, decodeSlot, read_eq hx, ok_bind, read_colIdx (by rw [h.colIdx_size]; exact hlt),
    ok_bind, ok_bind, if_pos ⟨hrow, hcol⟩, if_pos hcol, ok_bind]

omit [Element α] in
/-- The span of a sound row is not cut off. -/
theorem placeRow_eq (h : m.Sound) (hrow : row < m.rows) (cells : Array α) :
    (placeRow m cells row : Guarded δ _) = decodeRow m m.cols cells row := by
  have hsize := h.rowPtr_size
  obtain ⟨start, hstart, hstartEq⟩ := read_rowPtr (m := m) (r := row) (δ := δ) (by omega)
  obtain ⟨stop, hstop, hstopEq⟩ := read_rowPtr (m := m) (r := row + 1) (δ := δ) (by omega)
  have hspan := (h.row row hrow).span_le
  have hslots : m.pointer (row + 1) ≤ m.slotCount := h.pointer_le_slotCount hrow
  simp only [placeRow, decodeRow, hstart, hstop, ok_bind, hstartEq, hstopEq,
    Nat.min_eq_left (Nat.le_trans hspan hslots), Nat.min_eq_left hslots]
  refine congrArg (fits (row + 1) >>= ·) (funext fun _ => foldlM_congr fun slot hslot cells => ?_)
  have hslot := List.mem_range'_1.mp hslot
  exact placeSlot_eq h hrow ⟨hslot.1, by omega⟩ cells

omit [Element α] in
/-- The rows of a sound layout are decoded as the loose decoder does. -/
theorem placeRows_eq (h : m.Sound) (cells : Array α) :
    ((List.range m.rows).foldlM (placeRow m) cells : Guarded δ _) =
      (List.range (min m.rows (m.rowPtr.size - 1))).foldlM (decodeRow m m.cols) cells := by
  rw [h.rowPtr_size, Nat.add_sub_cancel, Nat.min_self]
  exact foldlM_congr fun row hrow cells => placeRow_eq h (List.mem_range.mp hrow) cells

/-! ## What becomes of the arrays -/

theorem toDense_of_defect (hrows : m.rows < wordLimit) {defect : LayoutDefect}
    (h : m.checkLayout = .error defect) : toDense m = .error (.defect (.layout defect)) := by
  have hlayout : checkLayout m = .error (.defect defect) := by
    rw [show checkLayout m = _ from checkLayout_agrees hrows, h]
    rfl
  rw [toDense, hlayout]

omit [Element α] in
theorem checkLayout_of_sound (h : m.Sound) (hrows : m.rows < wordLimit) :
    checkLayout m = .ok () := by
  rw [show checkLayout m = _ from checkLayout_agrees hrows, Csr.checkLayout_eq_ok_iff.mpr h]
  rfl

/-- The count of the cells is the only step that goes wrong. -/
theorem toDense_of_overflow (h : m.Sound) (hrows : m.rows < wordLimit)
    (hword : wordLimit ≤ m.rows * m.cols) :
    toDense m = .error (.fault (.overflow (m.rows * m.cols))) := by
  rw [toDense, checkLayout_of_sound h hrows]
  simp only [fits, if_neg (Nat.not_lt.mpr hword)]
  rfl

theorem toDense_of_fits (h : m.Sound) (hrows : m.rows < wordLimit)
    (hword : m.rows * m.cols < wordLimit) :
    ∃ cells, toDense m = .ok ⟨m.rows, m.cols, cells⟩ ∧
      m.toDense = .ok (.ok ⟨m.rows, m.cols, cells⟩) ∧ m.Decodes cells := by
  obtain ⟨cells, hguarded, hdecode⟩ := decodeLoosely_eq (m := m) (δ := MatrixError) hrows hword
  obtain ⟨cells', hdecode', hcells⟩ := h.decodeLoosely hword
  cases hdecode.symm.trans hdecode'
  rw [decodeLoosely, fits_eq hword, ok_bind, ← placeRows_eq h] at hguarded
  refine ⟨cells, ?_, ?_, hcells⟩
  · rw [toDense, checkLayout_of_sound h hrows]
    simp only [fits_eq hword, ok_bind, hguarded]
    rfl
  · rw [h.toDense_eq, hdecode]
    rfl

end Guarded

omit [Element α] in
/-- Writing entries goes wrong iff one of them lies beyond the cells. -/
theorem Dense.foldlM_writeCell_eq_error_iff {cols : Nat} {entries : List (Nat × Nat × α)}
    {cells : Array α} {fault : AccessFault} :
    entries.foldlM (fun cells (row, col, x) => writeCell cells (offset cols row col) x) cells =
        .error fault ↔
      fault = .unbacked ∧ ∃ entry ∈ entries, cells.size ≤ offset cols entry.1 entry.2.1 := by
  induction entries generalizing cells with
  | nil =>
    constructor
    · intro h
      cases h
    · rintro ⟨-, entry, hentry, -⟩
      exact absurd hentry List.not_mem_nil
  | cons entry rest ih =>
    obtain ⟨row, col, x⟩ := entry
    rw [List.foldlM_cons, List.exists_mem_cons_iff]
    by_cases hplace : offset cols row col < cells.size
    · -- an entry that is written leaves the number of cells as it is
      have hwrite : writeCell cells (offset cols row col) x = .ok (cells.set _ x hplace) :=
        dif_pos hplace
      simp only [hwrite, ok_bind, Nat.not_le.mpr hplace, false_or]
      rw [ih, Array.size_set]
    · have hwrite : writeCell cells (offset cols row col) x = .error .unbacked := dif_neg hplace
      simp only [hwrite, Nat.le_of_not_lt hplace, true_or, and_true]
      constructor
      · intro h
        cases h
        rfl
      · rintro rfl
        rfl

theorem cellCount_lt (rows cols : Nat) : cellCount rows cols < wordLimit :=
  Nat.mod_lt _ (by decide)

namespace Csr

variable {m : Csr α}

/-- The strict decoder gives an error, or a matrix of the shape with all its cells. -/
def DecodesCleanly (m : Csr α) : Prop :=
  (∃ error, m.toDense = .ok (.error error)) ∨
    ∃ d, m.toDense = .ok (.ok d) ∧ d.rows = m.rows ∧ d.cols = m.cols ∧
      d.cells.size = m.rows * m.cols

omit [Element α] in
/-- A slot holds an entry that lies, as a word counts its offset, beyond what a word counts of the
cells. -/
def Overruns (m : Csr α) : Prop :=
  ∃ row < m.rows, ∃ col slot, m.Holds row col slot ∧
    cellCount m.rows m.cols ≤ Dense.offset m.cols row col

namespace Sound

/-- The decoder goes wrong iff an entry finds no cell. -/
theorem toDense_eq_error_iff (h : m.Sound) {fault : AccessFault} :
    m.toDense = .error fault ↔ fault = .unbacked ∧ m.Overruns := by
  have hentries : (∃ entry ∈ m.entries, cellCount m.rows m.cols ≤
      Dense.offset m.cols entry.1 entry.2.1) ↔ m.Overruns := by
    constructor
    · rintro ⟨⟨row, col, x⟩, hentry, hplace⟩
      obtain ⟨hrow, slot, hslot, -⟩ := mem_entries.mp hentry
      exact ⟨row, hrow, col, slot, hslot, hplace⟩
    · rintro ⟨row, hrow, col, slot, hslot, hplace⟩
      exact ⟨(row, col, m.value slot), mem_entries.mpr ⟨hrow, slot, hslot, rfl⟩, hplace⟩
  have hloose : m.decodeLoosely m.rows m.cols = .error fault ↔
      fault = .unbacked ∧ m.Overruns := by
    rw [Csr.decodeLoosely, h.looseEntries_eq, Dense.foldlM_writeCell_eq_error_iff,
      Array.size_replicate, hentries]
  rw [← hloose, h.toDense_eq]
  cases m.decodeLoosely m.rows m.cols <;> simp [Except.map]

/-- If all entries find a cell, there are as many cells as a word counts. -/
theorem toDense_of_not_overruns (h : m.Sound) (hinside : ¬ m.Overruns) :
    ∃ d, m.toDense = .ok (.ok d) ∧ d.cells.size = cellCount m.rows m.cols := by
  cases hdecode : m.decodeLoosely m.rows m.cols with
  | error fault =>
    have hfault : m.toDense = .error fault := by
      rw [h.toDense_eq, hdecode]
      rfl
    exact absurd (h.toDense_eq_error_iff.mp hfault).2 hinside
  | ok cells =>
    refine ⟨⟨m.rows, m.cols, cells⟩, ?_, decodeLoosely_size hdecode⟩
    rw [h.toDense_eq, hdecode]
    rfl

/-- Behind the layout check there is no error left to give, so the count must fit. -/
theorem decodesCleanly_iff (h : m.Sound) : m.DecodesCleanly ↔ m.rows * m.cols < wordLimit := by
  constructor
  · intro hclean
    by_contra hword
    have hlost : cellCount m.rows m.cols < m.rows * m.cols :=
      Nat.lt_of_lt_of_le (cellCount_lt _ _) (Nat.le_of_not_lt hword)
    by_cases hover : m.Overruns
    · have hfault := h.toDense_eq_error_iff.mpr ⟨rfl, hover⟩
      rcases hclean with ⟨error, herror⟩ | ⟨d, hdense, -⟩
      · cases hfault.symm.trans herror
      · cases hfault.symm.trans hdense
    · obtain ⟨d, hdense, hsize⟩ := h.toDense_of_not_overruns hover
      rcases hclean with ⟨error, herror⟩ | ⟨d', hdense', -, -, hsize'⟩
      · cases hdense.symm.trans herror
      · cases hdense.symm.trans hdense'
        omega
  · intro hword
    obtain ⟨cells, hdense, hcells⟩ := h.toDense hword
    exact .inr ⟨_, hdense, rfl, rfl, hcells.size_eq⟩

end Sound

/-- **The strict decoder is clean iff the layout is refused or its cells can be counted.** A refused
layout is named, with guards and without, and a layout whose cells fit a word is decoded into all of
them. Behind a sound layout whose cells do not fit a word no error is left to give: with a guard the
count goes wrong, and without it either an entry finds no cell or cells are missing. -/
theorem toDense_outcomes (hrows : m.rows < wordLimit) :
    (m.DecodesCleanly ↔ (m.checkLayout = .ok () → m.rows * m.cols < wordLimit)) ∧
    (∀ defect, m.checkLayout = .error defect →
      m.toDense = .ok (.error (.layout defect)) ∧
      Guarded.settle (Guarded.toDense m) = .ok (.error (.layout defect))) ∧
    (m.checkLayout = .ok () → m.rows * m.cols < wordLimit →
      ∃ d, m.toDense = .ok (.ok d) ∧ Guarded.settle (Guarded.toDense m) = .ok (.ok d) ∧
        d.rows = m.rows ∧ d.cols = m.cols ∧ d.cells.size = m.rows * m.cols) ∧
    (m.checkLayout = .ok () → wordLimit ≤ m.rows * m.cols →
      Guarded.settle (Guarded.toDense m) = .error (.overflow (m.rows * m.cols)) ∧
      (m.Overruns → m.toDense = .error .unbacked) ∧
      (¬ m.Overruns → ∃ d, m.toDense = .ok (.ok d) ∧
        d.cells.size = m.rows * m.cols % wordLimit ∧ d.cells.size < m.rows * m.cols)) := by
  have hdefect : ∀ defect, m.checkLayout = .error defect →
      m.toDense = .ok (.error (.layout defect)) := by
    intro defect h
    rw [toDense, h]
  refine ⟨?_, fun defect h => ⟨hdefect defect h, ?_⟩, fun h hword => ?_, fun h hword => ?_⟩
  · cases h : m.checkLayout with
    | error defect => exact iff_of_true (.inl ⟨_, hdefect defect h⟩) fun hok => by cases hok
    | ok =>
      rw [(checkLayout_eq_ok_iff.mp h).decodesCleanly_iff]
      exact ⟨fun hword _ => hword, fun hword => hword rfl⟩
  · rw [Guarded.toDense_of_defect hrows h]
    rfl
  · obtain ⟨cells, hguarded, hdense, hcells⟩ :=
      Guarded.toDense_of_fits (checkLayout_eq_ok_iff.mp h) hrows hword
    exact ⟨_, hdense, by rw [hguarded]; rfl, rfl, rfl, hcells.size_eq⟩
  · have hsound := checkLayout_eq_ok_iff.mp h
    refine ⟨?_, fun hover => hsound.toDense_eq_error_iff.mpr ⟨rfl, hover⟩, fun hinside => ?_⟩
    · rw [Guarded.toDense_of_overflow hsound hrows hword]
      rfl
    · obtain ⟨d, hdense, hsize⟩ := hsound.toDense_of_not_overruns hinside
      exact ⟨d, hdense, hsize, hsize ▸ Nat.lt_of_lt_of_le (cellCount_lt _ _) hword⟩

/-- As many rows as a word can number but a single pointer; a shape that fits; and one that does
not, without an entry and with one. -/
theorem toDense_outcomes_limits :
    let refused : Csr Int32 := ⟨wordLimit - 1, 2, #[0], #[], #[]⟩
    let fine : Csr Int32 := ⟨2, 3, #[0, 1, 2], #[2, 0], #[5, 6]⟩
    let wide : Csr Int32 := ⟨2, 9223372036854775808, #[0, 0, 0], #[], #[]⟩
    let held : Csr Int32 := ⟨2, 9223372036854775808, #[0, 0, 1], #[5], #[7]⟩
    refused.rows < wordLimit ∧ refused.DecodesCleanly ∧
      refused.checkLayout = .error (.rowPtrLength (wordLimit - 1) 1) ∧
      refused.toDense = .ok (.error (.layout (.rowPtrLength (wordLimit - 1) 1))) ∧
    fine.rows < wordLimit ∧ fine.DecodesCleanly ∧ fine.checkLayout = .ok () ∧
      fine.rows * fine.cols < wordLimit ∧
      (∃ d, fine.toDense = .ok (.ok d) ∧ d.cells.size = 6) ∧
    wide.rows < wordLimit ∧ ¬ wide.DecodesCleanly ∧ wide.checkLayout = .ok () ∧
      wide.rows * wide.cols = wordLimit ∧ ¬ wide.Overruns ∧
      (∃ d, wide.toDense = .ok (.ok d) ∧ d.cells.size = 0) ∧
      Guarded.settle (Guarded.toDense wide) = .error (.overflow wordLimit) ∧
    held.rows < wordLimit ∧ held.checkLayout = .ok () ∧ held.rows * held.cols = wordLimit ∧
      held.Overruns ∧ held.toDense = .error .unbacked := by
  intro refused fine wide held
  have hrefused : refused.rows < wordLimit := by decide
  have hfine : fine.rows < wordLimit := by decide
  have hwide : wide.rows < wordLimit := by decide
  have hheld : held.rows < wordLimit := by decide
  have hlength : refused.checkLayout = .error (.rowPtrLength (wordLimit - 1) 1) := by
    decide +kernel
  have hlayout : fine.checkLayout = .ok () := by decide +kernel
  have hfits : fine.rows * fine.cols < wordLimit := by decide
  have hempty : wide.checkLayout = .ok () := by decide +kernel
  have hsound : held.checkLayout = .ok () := by decide +kernel
  have hlimit : wide.rows * wide.cols = wordLimit := by decide
  have hinside : ¬ wide.Overruns := by
    rintro ⟨row, hrow, col, slot, hslot, -⟩
    have hlt : slot < wide.pointer wide.rows :=
      (checkLayout_eq_ok_iff.mp hempty).inRow_lt (Nat.le_refl _) hrow hslot.1
    exact absurd hlt (Nat.not_lt_zero slot)
  have houtside : held.Overruns :=
    ⟨1, by decide, 5, 0, ⟨⟨by decide, by decide⟩, rfl⟩, by decide⟩
  obtain ⟨hcleanRefused, hdefect, -, -⟩ := toDense_outcomes hrefused
  obtain ⟨hcleanFine, -, hdecodes, -⟩ := toDense_outcomes hfine
  obtain ⟨hcleanWide, -, -, hgoneWide⟩ := toDense_outcomes hwide
  obtain ⟨-, -, -, hgoneHeld⟩ := toDense_outcomes hheld
  obtain ⟨d, hd, -, -, -, hsize⟩ := hdecodes hlayout hfits
  obtain ⟨hguarded, -, hmissing⟩ := hgoneWide hempty hlimit.ge
  obtain ⟨e, he, hleft, -⟩ := hmissing hinside
  rw [hlimit] at hguarded
  rw [hlimit, Nat.mod_self] at hleft
  refine ⟨hrefused, hcleanRefused.mpr fun h => ?_, hlength, (hdefect _ hlength).1, hfine,
    hcleanFine.mpr fun _ => hfits, hlayout, hfits, ⟨d, hd, hsize⟩, hwide,
    fun h => absurd (hcleanWide.mp h hempty) (Nat.not_lt.mpr hlimit.ge), hempty, hlimit, hinside,
    ⟨e, he, hleft⟩, hguarded, hheld, hsound, hlimit, houtside,
    (hgoneHeld hsound hlimit.ge).2.1 houtside⟩
  cases hlength.symm.trans h

/-- Two rows of half as many columns as a word can count: nothing is left of the count, and the one
entry finds no cell. -/
theorem toDense_unbacked :
    let m : Csr Int32 := ⟨2, 9223372036854775808, #[0, 0, 1], #[5], #[7]⟩
    m.checkLayout = .ok () ∧ m.rows * m.cols = wordLimit ∧
      Guarded.settle (Guarded.toDense m) = .error (.overflow wordLimit) ∧
      m.toDense = .error .unbacked ∧ ¬ m.DecodesCleanly := by
  intro m
  have hlayout : m.checkLayout = .ok () := by decide +kernel
  have hlimit : m.rows * m.cols = wordLimit := by decide
  have hunbacked : m.toDense = .error .unbacked := by decide +kernel
  have hguarded := Guarded.toDense_of_overflow (checkLayout_eq_ok_iff.mp hlayout)
    (by decide : m.rows < wordLimit) hlimit.ge
  rw [hlimit] at hguarded
  refine ⟨hlayout, hlimit, by rw [hguarded]; rfl, hunbacked, ?_⟩
  rintro (⟨error, herror⟩ | ⟨d, hdense, -⟩)
  · cases hunbacked.symm.trans herror
  · cases hunbacked.symm.trans hdense

end Csr

end SparseDatasets
