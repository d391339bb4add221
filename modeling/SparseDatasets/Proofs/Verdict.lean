import SparseDatasets.Proofs.RoundTrip

/-!
# The verdict of the validation

The loose decoder clamps the spans and skips what it cannot place, so by itself
its silence means little. Together with the layout check it means that every
cell is reproduced: by the value of its one slot, or as a zero where it has no
slot. A matrix has only one encoding without stored zeros that does this, so
whatever is changed in an encoding is found.

- `Csr.Reproduces`: the arrays reproduce every cell of a matrix.
- `Csr.Represents`: they have its shape and a sound layout as well.
- `represents_iff`: what the two checks of the arrays accept.
- `validate_isOk_iff`: the verdict is exact.
- `Csr.Represents.offsets_eq`: without stored zeros, the slots lie at the nonzero cells.
- `Csr.Matches`: the same index arrays, and values that reproduce the values.
- `validate_matches`: only the encoding is accepted.
-/

namespace SparseDatasets

variable {α : Type} [Element α]

/-! ## Reproducing a matrix -/

namespace Csr

/-- Every cell is reproduced: by the value of a slot that holds its entry, or, where there is
none, as a zero. -/
def Reproduces (m : Csr α) (d : Dense α) : Prop :=
  ∀ i < d.rows, ∀ j < d.cols, ∃ x, d.get i j = .ok x ∧
    (∀ slot, m.Holds i j slot → Element.sameValue x (m.value slot) = true) ∧
    ((∀ slot, ¬ m.Holds i j slot) → Element.isZero x = true)

/-- The arrays have the shape of the matrix and a sound layout, and they reproduce its cells. -/
structure Represents (m : Csr α) (d : Dense α) : Prop where
  rows_eq : m.rows = d.rows
  cols_eq : m.cols = d.cols
  sound : m.Sound
  reproduces : m.Reproduces d

variable {m : Csr α} {d : Dense α}

/-- How a given cell is reproduced. -/
theorem Reproduces.cell (h : m.Reproduces d) (hd : d.WellShaped) {i j : Nat} (hi : i < d.rows)
    (hj : j < d.cols) {x : α} (hx : d.cells[i * d.cols + j]? = some x) :
    (∀ slot, m.Holds i j slot → Element.sameValue x (m.value slot) = true) ∧
      ((∀ slot, ¬ m.Holds i j slot) → Element.isZero x = true) := by
  obtain ⟨y, hget, hcell⟩ := h i hi j hj
  rw [(hd.get_eq_ok_iff hi hj).mpr hx] at hget
  cases hget
  exact hcell

variable [LawfulElement α]

/-- On a sound layout the comparison of the cells means that each of them is reproduced. -/
theorem Sound.checkDecoding_eq_ok_iff (h : m.Sound) (hd : d.WellShaped) (hrows : m.rows = d.rows)
    (hcols : m.cols = d.cols) : checkDecoding d m = .ok (.ok ()) ↔ m.Reproduces d := by
  obtain ⟨cells, hdecode, hcells⟩ := h.decodeLoosely (by rw [hrows, hcols]; exact hd.word)
  rw [hrows, hcols] at hdecode
  obtain ⟨result, hresult, hok⟩ := checkDecoding_eq hdecode
  rw [hresult, Except.ok.injEq, hok]
  have hheld := hcells.held
  have hempty := hcells.empty
  rw [hrows, hcols] at hheld hempty
  constructor
  · intro hsame i hi j hj
    obtain ⟨x, hx⟩ := hd.exists_cell hi hj
    refine ⟨x, (hd.get_eq_ok_iff hi hj).mpr hx, fun slot hslot => ?_, fun hnone => ?_⟩
    · exact hsame _ x _ hx (hheld i hi j hj slot hslot)
    · rw [← Element.sameValue_zero]
      exact hsame _ x _ hx (hempty i hi j hj hnone)
  · intro hcell k x y hx hy
    -- every offset is that of a cell, which has a slot or has none
    obtain ⟨i, hi, j, hj, rfl⟩ := hd.exists_coordinates hx
    obtain ⟨hslots, hnone⟩ := hcell.cell hd hi hj hx
    by_cases hexists : ∃ slot, m.Holds i j slot
    · obtain ⟨slot, hslot⟩ := hexists
      rw [hheld i hi j hj slot hslot] at hy
      cases hy
      exact hslots slot hslot
    · have hnot : ∀ slot, ¬ m.Holds i j slot := not_exists.mp hexists
      rw [hempty i hi j hj hnot] at hy
      cases hy
      rw [Element.sameValue_zero]
      exact hnone hnot

end Csr

section Verdict

variable [LawfulElement α] {d : Dense α}

/-- The two checks of the arrays accept those that represent the matrix. -/
theorem represents_iff (hd : d.WellShaped) {m : Csr α} :
    checkStructure d m = .ok () ∧ checkDecoding d m = .ok (.ok ()) ↔ m.Represents d := by
  rw [checkStructure_eq_ok_iff]
  constructor
  · rintro ⟨⟨⟨hrows, hcols⟩, hsound⟩, hdecoding⟩
    exact ⟨hrows, hcols, hsound, (hsound.checkDecoding_eq_ok_iff hd hrows hcols).mp hdecoding⟩
  · intro h
    exact ⟨⟨⟨h.rows_eq, h.cols_eq⟩, h.sound⟩,
      (h.sound.checkDecoding_eq_ok_iff hd h.rows_eq h.cols_eq).mpr h.reproduces⟩

/-- **The verdict is exact.** Any arrays are accepted for a matrix iff they have its shape, their
layout is sound, and each cell is reproduced: by the value of a slot of its row and column, or as
a zero where its row has no slot with its column. -/
theorem validate_isOk_iff (hd : d.WellShaped) (m : Csr α) :
    ∃ report, validate d m .matrixVector = .ok report ∧
      (report.isOk = true ↔
        (m.rows = d.rows ∧ m.cols = d.cols) ∧ m.checkLayout = .ok () ∧ m.Reproduces d) := by
  obtain ⟨decoding, _, _, hdecoding, -, -, hreport⟩ := validate_eq_ok hd m .matrixVector
  refine ⟨_, hreport, ?_⟩
  have hclean : ∀ layout decoding : Except MatrixError Unit,
      (Report.mk [(.structural, .ofResult layout), (.decodeEquivalence, .ofResult decoding),
        (.diagonalNonzero, .skipped), (.symmetry, .skipped)]).isOk = true ↔
        layout = .ok () ∧ decoding = .ok () := by
    intro layout decoding
    simp only [Report.isOk_iff, List.forall_mem_cons, Status.error?_ofResult]
    simp [Status.error?]
  have hrepresents := represents_iff hd (m := m)
  rw [hdecoding, Except.ok.injEq] at hrepresents
  refine (hclean _ _).trans (hrepresents.trans ?_)
  rw [Csr.checkLayout_eq_ok_iff]
  constructor
  · intro h
    exact ⟨⟨h.rows_eq, h.cols_eq⟩, h.sound, h.reproduces⟩
  · rintro ⟨⟨hrows, hcols⟩, hsound, hcells⟩
    exact ⟨hrows, hcols, hsound, hcells⟩

end Verdict

/-- A stored zero reproduces a negative zero, and one NaN another. -/
theorem validate_isOk_other_words :
    let d : Dense Binary64 := ⟨2, 2, #[⟨0x8000000000000000⟩, .nan, 0, 0]⟩
    let m : Csr Binary64 := ⟨2, 2, #[0, 2, 2], #[0, 1], #[0, ⟨0xfff8000000000001⟩]⟩
    d.WellShaped ∧ (∃ report, validate d m .matrixVector = .ok report ∧ report.isOk = true) ∧
      m.Reproduces d := by
  intro d m
  have hd : d.WellShaped := ⟨rfl, by decide⟩
  have hpasses : (validate d m .matrixVector).map Report.isOk = .ok true := by decide +kernel
  obtain ⟨report, hreport, hok⟩ := validate_isOk_iff hd m
  rw [hreport] at hpasses
  have hclean : report.isOk = true := Except.ok.inj hpasses
  exact ⟨hd, ⟨report, hreport, hclean⟩, (hok.mp hclean).2.2⟩

/-! ## The one encoding -/

namespace Csr

/-- The same shape and index arrays, and as many values, each of which reproduces the one in its
place. -/
structure Matches (m e : Csr α) : Prop where
  rows_eq : m.rows = e.rows
  cols_eq : m.cols = e.cols
  rowPtr_eq : m.rowPtr = e.rowPtr
  colIdx_eq : m.colIdx = e.colIdx
  size_eq : m.values.size = e.values.size
  same : ∀ (slot : Nat) (x y : α), e.values[slot]? = some x → m.values[slot]? = some y →
    Element.sameValue x y = true

namespace Represents

variable {m : Csr α} {d : Dense α}

/-- A slot holds the entry of a cell iff its offset is that of the cell. -/
theorem holds_iff (h : m.Represents d) {i j slot : Nat} (hi : i < d.rows) (hj : j < d.cols) :
    m.Holds i j slot ↔ m.offsets[slot]? = some (i * d.cols + j) := by
  rw [← h.cols_eq]
  exact h.sound.indexes_offsets.holds_iff h.sound.offsets_pairwise (h.rows_eq ▸ hi)
    (h.cols_eq ▸ hj)

/-- The value of a slot reproduces the cell at its offset. -/
theorem sameValue_value (h : m.Represents d) (hd : d.WellShaped) {k slot : Nat} {x y : α}
    (hslot : m.offsets[slot]? = some k) (hx : d.cells[k]? = some x)
    (hy : m.values[slot]? = some y) : Element.sameValue x y = true := by
  obtain ⟨i, hi, j, hj, rfl⟩ := hd.exists_coordinates hx
  have hsame := (h.reproduces.cell hd hi hj hx).1 slot ((h.holds_iff hi hj).mpr hslot)
  rw [value, Array.getD_eq_getD_getElem?, hy] at hsame
  exact hsame

variable [LawfulElement α]

/-- Without stored zeros the slots lie at the nonzero cells: a slot at a zero would hold a zero,
and a nonzero cell without a slot would decode to zero. -/
theorem offsets_eq (h : m.Represents d) (hd : d.WellShaped)
    (hnonzero : ∀ x ∈ m.values, Element.isZero x = false) :
    m.offsets = d.support.positions.toList := by
  refine h.sound.offsets_pairwise.eq_of_mem_iff d.support_pairwise fun k => ?_
  rw [Dense.mem_support]
  constructor
  · -- the value of the slot is not zero, so the cell that it reproduces is not
    intro hk
    obtain ⟨slot, hslot⟩ := List.mem_iff_getElem?.mp hk
    have hlt : k < d.cells.size := by
      rw [hd.size_eq, ← h.rows_eq, ← h.cols_eq]
      exact h.sound.offsets_lt k hk
    have hvalues : slot < m.values.size := by
      rw [h.sound.values_size, ← h.sound.offsets_length]
      exact (List.getElem?_eq_some_iff.mp hslot).1
    have hx : d.cells[k]? = some d.cells[k] := Array.getElem?_eq_getElem hlt
    have hy : m.values[slot]? = some m.values[slot] := Array.getElem?_eq_getElem hvalues
    refine ⟨_, hx, ?_⟩
    rw [Element.isZero_eq_of_sameValue (h.sameValue_value hd hslot hx hy)]
    exact hnonzero _ (Array.getElem_mem hvalues)
  · -- without a slot the cell would have to be zero
    rintro ⟨x, hx, hzero⟩
    by_contra hk
    obtain ⟨i, hi, j, hj, rfl⟩ := hd.exists_coordinates hx
    have hempty : ∀ slot, ¬ m.Holds i j slot := by
      intro slot hslot
      exact hk (List.mem_of_getElem? ((h.holds_iff hi hj).mp hslot))
    rw [(h.reproduces.cell hd hi hj hx).2 hempty] at hzero
    cases hzero

/-- Without stored zeros the arrays are those of the encoding. -/
theorem matches_compressed (h : m.Represents d) (hd : d.Compressible)
    (hnonzero : ∀ x ∈ m.values, Element.isZero x = false) : m.Matches d.compressed := by
  have hoffsets := h.offsets_eq hd.wellShaped hnonzero
  have hindexes : m.Indexes d.support.positions.toList := hoffsets ▸ h.sound.indexes_offsets
  obtain ⟨hrowPtr, hcolIdx⟩ := hindexes.unique hd.indexes h.rows_eq h.cols_eq
  have hsize : m.values.size = d.compressed.values.size := by
    rw [h.sound.values_size, ← h.sound.offsets_length, hoffsets, Dense.compressed_values_size]
  refine { rows_eq := h.rows_eq, cols_eq := h.cols_eq, rowPtr_eq := hrowPtr,
           colIdx_eq := hcolIdx, size_eq := hsize, same := ?_ }
  intro slot x y hx hy
  have hslot : slot < m.offsets.length := by
    rw [h.sound.offsets_length, ← h.sound.values_size]
    exact (Array.getElem?_eq_some_iff.mp hy).1
  have hk : m.offsets[slot]? = some m.offsets[slot] := List.getElem?_eq_getElem hslot
  -- the encoding has the cell at the offset of the slot
  have hk' : d.support.positions.toList[slot]? = some m.offsets[slot] := by
    rw [← hoffsets, hk]
  have hcell := Dense.compressed_value hk'
  rw [value, Array.getD_eq_getD_getElem?, hx, Option.getD_some] at hcell
  exact h.sameValue_value hd.wellShaped hk hcell hy

end Represents

end Csr

/-- **Every change of an encoding is found.** Whatever is asked for, arrays without stored zeros
are accepted for a matrix only if they are those of its encoding, up to values that reproduce the
values. If they are not, one of the two checks of the arrays fails. -/
theorem validate_matches [LawfulElement α] {d : Dense α} (h : d.Compressible) {m : Csr α}
    (hnonzero : ∀ x ∈ m.values, Element.isZero x = false) :
    ∃ e, d.encode = .ok (.ok e) ∧ ∀ required, ∃ report, validate d m required = .ok report ∧
      (report.isOk = true → m.Matches e) ∧
      (¬ m.Matches e → (∃ error, report.status .structural = .failed error) ∨
        ∃ error, report.status .decodeEquivalence = .failed error) := by
  refine ⟨d.compressed, h.encode_eq, fun required => ?_⟩
  obtain ⟨decoding, diagonal, symmetry, hdecoding, -, -, hreport⟩ :=
    validate_eq_ok h.wellShaped m required
  have hmatches : checkStructure d m = .ok () → decoding = .ok () → m.Matches d.compressed := by
    rintro hlayout rfl
    exact ((represents_iff h.wellShaped).mp ⟨hlayout, hdecoding⟩).matches_compressed h hnonzero
  refine ⟨_, hreport, fun hok => ?_, fun hdiffers => ?_⟩
  · simp only [Report.isOk_iff, List.forall_mem_cons, Status.error?_ofResult] at hok
    exact hmatches hok.1 hok.2.1
  · cases hlayout : checkStructure d m with
    | error error => exact .inl ⟨error, rfl⟩
    | ok _ =>
      cases decoding with
      | error error => exact .inr ⟨error, rfl⟩
      | ok _ => exact absurd (hmatches hlayout rfl) hdiffers

/-- An entry that is moved up by closing its row late is found. -/
theorem validate_matches_moved_entry :
    let d : Dense Int64 := ⟨2, 2, #[5, 0, 0, 7]⟩
    let m : Csr Int64 := ⟨2, 2, #[0, 2, 2], #[0, 1], #[5, 7]⟩
    d.Compressible ∧ (∀ x ∈ m.values, Element.isZero x = false) ∧
      ∃ report, validate d m .matrixVector = .ok report ∧
        ((∃ error, report.status .structural = .failed error) ∨
          ∃ error, report.status .decodeEquivalence = .failed error) := by
  intro d m
  have h : d.Compressible :=
    ⟨⟨rfl, by decide⟩, by decide, by decide, by decide, by decide, by decide⟩
  have hnonzero : ∀ x ∈ m.values, Element.isZero x = false := by
    intro x hx
    have hx : x = 5 ∨ x = 7 := by simpa [m] using hx
    rcases hx with rfl | rfl
    · decide
    · decide
  obtain ⟨e, hencode, hverdict⟩ := validate_matches h hnonzero
  obtain ⟨report, hreport, -, hfails⟩ := hverdict .matrixVector
  refine ⟨h, hnonzero, report, hreport, hfails fun hmatches => ?_⟩
  -- the pointers of the encoding count the offsets before each row
  rw [h.encode_eq] at hencode
  cases hencode
  have hpointers := h.indexes.rowPtr_eq
  rw [← hmatches.rowPtr_eq] at hpointers
  revert hpointers
  decide

end SparseDatasets
