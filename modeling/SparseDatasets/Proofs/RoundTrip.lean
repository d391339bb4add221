import SparseDatasets.Proofs.Checks
import SparseDatasets.Proofs.Encoding

/-!
# Encoding and decoding

The encoding of a matrix indexes the support of the matrix, so its slots hold the
nonzero cells and no others. Decoding it gives every nonzero cell back as it
was; all that is lost is which zeros were negative.

- `Dense.Compressible`: the matrices that can be encoded.
- `Dense.compressed`: the encoding of a matrix.
- `Dense.Compressible.encode_eq`: the encoder gives it.
- `Dense.Compressible.holds_iff`: its slots hold the nonzero cells.
- `Dense.decode_encode`: decoding undoes encoding, and validation agrees.
-/

namespace SparseDatasets

namespace Dense

variable {α : Type} [Element α]

/-! ## The encoding of a matrix -/

/-- The matrix has cells, as many as its shape says, and its columns and nonzero cells can be
counted by an index. -/
structure Compressible (d : Dense α) : Prop where
  wellShaped : d.WellShaped
  rows_pos : 0 < d.rows
  cols_pos : 0 < d.cols
  /-- A word can count the row pointers. As a cell takes more than a byte, no matrix that has all
  its cells in memory comes near to the limit. -/
  rows_lt : d.rows + 1 < wordLimit
  cols_lt : d.cols < indexLimit
  nnz_lt : d.nnz < indexLimit

/-- The arrays for the nonzero cells of a matrix. -/
def compressed (d : Dense α) : Csr α :=
  .ofPositions d.rows d.cols d.support.positions
    (d.support.positions.map fun k => d.cells.getD k 0)

/-- The matrix with every zero positive. -/
def unsignedZeros (d : Dense α) : Dense α :=
  ⟨d.rows, d.cols, d.cells.map fun x => if Element.isZero x then 0 else x⟩

theorem compressed_values_size (d : Dense α) :
    d.compressed.values.size = d.support.positions.toList.length := by
  show (d.support.positions.map fun k => d.cells.getD k 0).size = _
  simp

/-- The value of a slot is the cell at its offset. -/
theorem compressed_value {d : Dense α} {k slot : Nat}
    (hslot : d.support.positions.toList[slot]? = some k) :
    d.cells[k]? = some (d.compressed.value slot) := by
  obtain ⟨x, hx, -⟩ := mem_support.mp (List.mem_of_getElem? hslot)
  have hslot' : d.support.positions[slot]? = some k := by simpa using hslot
  have hvalue : d.compressed.value slot = x := by
    show (d.support.positions.map fun k => d.cells.getD k 0).getD slot 0 = x
    simp [Array.getD_eq_getD_getElem?, hslot', hx]
  rw [hvalue, hx]

/-- No stored value is zero. -/
theorem compressed_isZero (d : Dense α) :
    ∀ x ∈ d.compressed.values, Element.isZero x = false := by
  intro x hx
  obtain ⟨k, hk, rfl⟩ := Array.mem_map.mp hx
  obtain ⟨y, hy, hzero⟩ := mem_support.mp (Array.mem_toList_iff.mpr hk)
  rw [Array.getD_eq_getD_getElem?, hy]
  exact hzero

namespace Compressible

variable {d : Dense α}

theorem admissible (h : d.Compressible) :
    Admissible d.rows d.cols d.support.positions.toList where
  rows_pos := h.rows_pos
  cols_pos := h.cols_pos
  cells_lt := h.wellShaped.word
  cols_lt := h.cols_lt
  length_lt := d.support_length ▸ h.nnz_lt
  ascending := d.support_pairwise
  inside := fun _ hi => h.wellShaped.size_eq ▸ lt_of_mem_support hi

/-- The encoder accepts the support and looks up each of its cells. -/
theorem encode_eq (h : d.Compressible) : d.encode = .ok (.ok d.compressed) := by
  rw [encode, Csr.encode_of_countable (InputDefect.first?_eq_none_iff.mpr h.admissible) h.rows_lt]
  have hvalues : (d.support.positions.mapM (m := Id) fun k => d.cells.getD k 0) =
      d.support.positions.map fun k => d.cells.getD k 0 := Array.idRun_mapM
  rw [hvalues]
  rfl

theorem indexes (h : d.Compressible) : d.compressed.Indexes d.support.positions.toList :=
  Csr.indexes_ofPositions h.admissible

theorem sound (h : d.Compressible) : d.compressed.Sound :=
  h.indexes.sound h.cols_pos d.support_pairwise h.admissible.inside (compressed_values_size d)

/-- The slots of the encoding hold the nonzero cells and no others. -/
theorem holds_iff (h : d.Compressible) {i j : Nat} (hi : i < d.rows) (hj : j < d.cols) {x : α}
    (hx : d.cells[i * d.cols + j]? = some x) :
    (∃ slot, d.compressed.Holds i j slot) ↔ Element.isZero x = false := by
  have hslot : ∀ slot, d.compressed.Holds i j slot ↔
      d.support.positions.toList[slot]? = some (i * d.cols + j) := fun slot =>
    h.indexes.holds_iff d.support_pairwise hi hj
  rw [exists_congr hslot, ← List.mem_iff_getElem?, mem_support]
  constructor
  · rintro ⟨y, hy, hzero⟩
    rw [hx] at hy
    cases hy
    exact hzero
  · intro hzero
    exact ⟨x, hx, hzero⟩

/-- A slot of the encoding has the value of its cell. -/
theorem value_of_holds (h : d.Compressible) {i j slot : Nat} (hi : i < d.rows) (hj : j < d.cols)
    (hslot : d.compressed.Holds i j slot) :
    d.cells[i * d.cols + j]? = some (d.compressed.value slot) :=
  compressed_value ((h.indexes.holds_iff d.support_pairwise hi hj).mp hslot)

/-! ## Decoding the encoding -/

/-- The cells that the encoding stands for are those of the matrix, with positive zeros. -/
theorem eq_of_decodes (h : d.Compressible) {cells : Array α} (hcells : d.compressed.Decodes cells) :
    cells = d.unsignedZeros.cells := by
  have hsize : cells.size = d.rows * d.cols := hcells.size_eq
  have hsize' : d.unsignedZeros.cells.size = d.rows * d.cols := by
    rw [unsignedZeros, Array.size_map, h.wellShaped.size_eq]
  refine Array.ext_getElem? fun k => ?_
  by_cases hk : k < d.rows * d.cols
  · obtain ⟨i, hi, j, hj, rfl⟩ := exists_offset hk
    obtain ⟨x, hx⟩ := h.wellShaped.exists_cell hi hj
    rw [unsignedZeros, Array.getElem?_map, hx, Option.map_some]
    by_cases hzero : Element.isZero x = true
    · -- a zero cell has no slot
      have hempty : ∀ slot, ¬ d.compressed.Holds i j slot := by
        intro slot hslot
        have := (h.holds_iff hi hj hx).mp ⟨slot, hslot⟩
        rw [hzero] at this
        cases this
      rw [if_pos hzero]
      exact hcells.empty i hi j hj hempty
    · obtain ⟨slot, hslot⟩ := (h.holds_iff hi hj hx).mpr (by simpa using hzero)
      have hleft := hcells.held i hi j hj slot hslot
      rw [if_neg hzero, ← hx, h.value_of_holds hi hj hslot]
      exact hleft
  · rw [Array.getElem?_eq_none (by omega), Array.getElem?_eq_none (by omega)]

theorem toDense_eq (h : d.Compressible) :
    d.compressed.toDense = .ok (.ok d.unsignedZeros) := by
  obtain ⟨cells, hdense, hcells⟩ := h.sound.toDense h.wellShaped.word
  rw [hdense, h.eq_of_decodes hcells]
  rfl

/-- The comparison of the cells accepts the encoding. -/
theorem checkDecoding_eq (h : d.Compressible) : checkDecoding d d.compressed = .ok (.ok ()) := by
  obtain ⟨cells, hdecode, hcells⟩ := h.sound.decodeLoosely h.wellShaped.word
  obtain ⟨result, hresult, hok⟩ := SparseDatasets.checkDecoding_eq (d := d) hdecode
  rw [hresult, hok.mpr]
  intro k x y hx hy
  rw [h.eq_of_decodes hcells] at hy
  simp only [unsignedZeros, Array.getElem?_map, hx, Option.map_some, Option.some.injEq] at hy
  by_cases hzero : Element.isZero x = true
  · rw [← hy, if_pos hzero]
    exact Element.sameValue_of_isZero hzero
  · rw [← hy, if_neg hzero]
    exact Element.sameValue_refl x

theorem checkStructure_eq (h : d.Compressible) : checkStructure d d.compressed = .ok () :=
  checkStructure_eq_ok_iff.mpr ⟨⟨rfl, rfl⟩, h.sound⟩

end Compressible

/-- **Decoding undoes encoding.** Every matrix that can be encoded is, and decoding gives it back
with its shape and all its cells, except that every zero is positive. The encoding stores no
zero, answers for the shape and the number of nonzeros as the matrix does, and passes the checks
of its layout and of its decoding, whatever else is asked for. -/
theorem decode_encode {d : Dense α} (h : d.Compressible) :
    ∃ m, d.encode = .ok (.ok m) ∧
      m.toDense = .ok (.ok
        ⟨d.rows, d.cols, d.cells.map fun x => if Element.isZero x then 0 else x⟩) ∧
      (∀ x ∈ m.values, Element.isZero x = false) ∧
      m.rows = d.rows ∧ m.cols = d.cols ∧ m.nnz = d.nnz ∧
      ∀ required, ∃ report, validate d m required = .ok report ∧
        report.status .structural = .passed ∧ report.status .decodeEquivalence = .passed := by
  refine ⟨d.compressed, h.encode_eq, h.toDense_eq, d.compressed_isZero, rfl, rfl, ?_, ?_⟩
  · rw [Csr.nnz, compressed_values_size, support_length]
  · intro required
    obtain ⟨decoding, diagonal, symmetry, hdecoding, -, -, hreport⟩ :=
      validate_eq_ok h.wellShaped d.compressed required
    rw [h.checkDecoding_eq] at hdecoding
    cases hdecoding
    rw [h.checkStructure_eq] at hreport
    exact ⟨_, hreport, rfl, rfl⟩

/-- A negative zero comes back positive, and a NaN and an infinity come back as they were. -/
theorem decode_encode_negative_zero :
    let d : Dense Binary64 := ⟨2, 2, #[⟨0x8000000000000000⟩, .nan, ⟨0x7ff0000000000000⟩, 0]⟩
    d.Compressible ∧ ∃ m, d.encode = .ok (.ok m) ∧ m.nnz = 2 ∧
      m.toDense = .ok (.ok ⟨2, 2, #[0, .nan, ⟨0x7ff0000000000000⟩, 0]⟩) := by
  intro d
  have h : d.Compressible :=
    ⟨⟨rfl, by decide⟩, by decide, by decide, by decide, by decide, by decide⟩
  have hcells : (d.cells.map fun x => if Element.isZero x then 0 else x) =
      #[0, .nan, ⟨0x7ff0000000000000⟩, 0] := by decide +kernel
  obtain ⟨m, hencode, hdecode, -, -, -, hnnz, -⟩ := decode_encode h
  rw [hcells] at hdecode
  exact ⟨h, m, hencode, hnnz.trans (by decide), hdecode⟩

end Dense

end SparseDatasets
