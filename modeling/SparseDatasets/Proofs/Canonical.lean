import SparseDatasets.Proofs.Verdict

/-!
# Encoding what was decoded

Sound arrays are canonical: there is no second way to write the same offsets and
values. Whatever was decoded from them can therefore be encoded again, and the
same arrays come back, pointers of empty rows included. The only thing that the
dense form does not remember is which of its zeros were stored.

- `Lookups.unique`: a lookup answers a list of offsets in one way only.
- `Csr.Sound.admissible`: the offsets of the slots meet the encoder's contract.
- `Csr.Sound.ofPositions_offsets`: the encoder gives the arrays back.
- `Csr.Sound.compressed_eq`: the encoding of the decoded matrix.
- `Csr.encode_toDense`: encoding undoes decoding.
-/

namespace SparseDatasets

/-- The calls over a list of offsets have only one outcome. -/
theorem Lookups.unique {σ α : Type} {lookup : Nat → StateM σ α} {positions : List Nat}
    {s t u : σ} {xs ys : List α} (h : Lookups lookup positions s xs t)
    (h' : Lookups lookup positions s ys u) : xs = ys ∧ t = u := by
  induction h generalizing ys with
  | nil s =>
    cases h'
    exact ⟨rfl, rfl⟩
  | cons hcall _ ih =>
    cases h' with
    | cons hcall' hrest' =>
      -- both runs begin with the same call, so they go on from the same state
      rw [hcall] at hcall'
      cases hcall'
      obtain ⟨rfl, rfl⟩ := ih hrest'
      exact ⟨rfl, rfl⟩

namespace Csr

variable {α : Type} {m : Csr α}

/-! ## The offsets of the slots -/

/-- The last pointer is an index, so an index can count the slots. -/
theorem Sound.offsets_length_lt (h : m.Sound) : m.offsets.length < indexLimit := by
  rw [h.offsets_length]
  exact UInt32.toNat_lt_size _

/-- The offsets of the slots meet the encoder's contract. -/
theorem Sound.admissible (h : m.Sound) (hrows : 0 < m.rows) (hcols : 0 < m.cols)
    (hindex : m.cols < indexLimit) (hword : m.rows * m.cols < wordLimit) :
    Admissible m.rows m.cols m.offsets where
  rows_pos := hrows
  cols_pos := hcols
  cells_lt := hword
  cols_lt := hindex
  length_lt := h.offsets_length_lt
  ascending := h.offsets_pairwise
  inside := h.offsets_lt

/-- The pass over the offsets of the slots rebuilds the index arrays. -/
theorem Sound.ofPositions_offsets (h : m.Sound) (hin : Admissible m.rows m.cols m.offsets) :
    ofPositions m.rows m.cols m.offsets.toArray m.values = m := by
  have hindexes : (ofPositions m.rows m.cols m.offsets.toArray m.values).Indexes m.offsets :=
    indexes_ofPositions hin
  obtain ⟨hrowPtr, hcolIdx⟩ := hindexes.unique h.indexes_offsets rfl rfl
  calc ofPositions m.rows m.cols m.offsets.toArray m.values
      = ⟨m.rows, m.cols, (ofPositions m.rows m.cols m.offsets.toArray m.values).rowPtr,
          (ofPositions m.rows m.cols m.offsets.toArray m.values).colIdx, m.values⟩ := rfl
    _ = ⟨m.rows, m.cols, m.rowPtr, m.colIdx, m.values⟩ := by rw [hrowPtr, hcolIdx]

/-- The encoder gives the arrays back if its lookup gives the values of the slots in order. -/
theorem Sound.encode_offsets {σ : Type} {lookup : Nat → StateM σ α} {s t : σ} (h : m.Sound)
    (hin : Admissible m.rows m.cols m.offsets) (hrows : m.rows + 1 < wordLimit)
    (hcalls : Lookups lookup m.offsets s m.values.toList t) :
    (Csr.encode m.rows m.cols m.offsets.toArray lookup).run s = (.ok (.ok m), t) := by
  have hmade := Lookups.of_mapM_array lookup m.offsets.toArray s
  generalize hrun : (m.offsets.toArray.mapM lookup).run s = run at hmade
  obtain ⟨values, u⟩ := run
  obtain ⟨hvalues, rfl⟩ : m.values.toList = values.toList ∧ t = u := hcalls.unique hmade
  obtain rfl : m.values = values := Array.toList_inj.mp hvalues
  have hcheck : InputDefect.first? m.rows m.cols m.offsets.toArray = none :=
    InputDefect.first?_eq_none_iff.mpr hin
  rw [encode_of_countable hcheck hrows, StateT.run_bind, hrun]
  show (Except.ok (Except.ok (ofPositions m.rows m.cols m.offsets.toArray m.values)), t) = _
  rw [h.ofPositions_offsets hin]

/-! ## The decoded matrix -/

variable [Element α]

/-- The cell at the offset of a slot has the value of the slot. -/
theorem Decodes.getElem?_offset {cells : Array α} (hcells : m.Decodes cells) (h : m.Sound)
    {slot : Nat} (hslot : slot < m.offsets.length) :
    cells[m.offsets[slot]]? = some (m.value slot) := by
  obtain ⟨r, hr, hin, hcol, hoffset⟩ := h.exists_row hslot
  rw [hoffset]
  exact hcells.held r hr _ hcol slot ⟨hin, rfl⟩

/-- Looking up the cells at the offsets gives the values of the slots. -/
theorem Decodes.map_offsets {cells : Array α} (hcells : m.Decodes cells) (h : m.Sound) :
    m.offsets.toArray.map (fun k => cells.getD k 0) = m.values := by
  have hsize : m.values.size = m.offsets.length := by rw [h.values_size, h.offsets_length]
  refine Array.ext (by rw [Array.size_map, List.size_toArray, hsize]) fun slot hslot hslot' => ?_
  have hoff : slot < m.offsets.length := hsize ▸ hslot'
  rw [Array.getElem_map, List.getElem_toArray, Array.getD_eq_getD_getElem?,
    hcells.getElem?_offset h hoff, Option.getD_some, value, Array.getD_eq_getD_getElem?,
    Array.getElem?_eq_getElem hslot', Option.getD_some]

variable [LawfulElement α]

/-- Arrays represent the matrix that they decode to. -/
theorem Decodes.represents {cells : Array α} (hcells : m.Decodes cells) (h : m.Sound)
    (hword : m.rows * m.cols < wordLimit) : m.Represents ⟨m.rows, m.cols, cells⟩ where
  rows_eq := rfl
  cols_eq := rfl
  sound := h
  reproduces := by
    intro i hi j hj
    have hd : Dense.WellShaped ⟨m.rows, m.cols, cells⟩ := ⟨hcells.size_eq, hcells.size_eq ▸ hword⟩
    obtain ⟨x, hx⟩ := hd.exists_cell hi hj
    refine ⟨x, (hd.get_eq_ok_iff hi hj).mpr hx, fun slot hslot => ?_, fun hempty => ?_⟩
    · have hvalue := hcells.held i hi j hj slot hslot
      rw [hx] at hvalue
      cases hvalue
      exact Element.sameValue_refl _
    · have hzero := hcells.empty i hi j hj hempty
      rw [hx] at hzero
      cases hzero
      exact LawfulElement.equal_zero

/-- Without stored zeros the arrays are the encoding of the matrix that they decode to: its
support is made of the offsets of the slots, and its cells there are the values. -/
theorem Sound.compressed_eq {cells : Array α} (h : m.Sound) (hcells : m.Decodes cells)
    (hin : Admissible m.rows m.cols m.offsets) (hrows : m.rows + 1 < wordLimit)
    (hnonzero : ∀ x ∈ m.values, Element.isZero x = false) :
    Dense.Compressible ⟨m.rows, m.cols, cells⟩ ∧
      Dense.compressed ⟨m.rows, m.cols, cells⟩ = m := by
  have hd : Dense.WellShaped ⟨m.rows, m.cols, cells⟩ :=
    ⟨hcells.size_eq, hcells.size_eq ▸ hin.cells_lt⟩
  have hoffsets := (hcells.represents h hin.cells_lt).offsets_eq hd hnonzero
  have hsupport : (Dense.support ⟨m.rows, m.cols, cells⟩).positions = m.offsets.toArray := by
    rw [hoffsets, Array.toArray_toList]
  constructor
  · refine { wellShaped := hd, rows_pos := hin.rows_pos, cols_pos := hin.cols_pos,
             rows_lt := hrows, cols_lt := hin.cols_lt, nnz_lt := ?_ }
    rw [← Dense.support_length, ← hoffsets]
    exact hin.length_lt
  · rw [Dense.compressed, hsupport, hcells.map_offsets h]
    exact h.ofPositions_offsets hin

/-- **Encoding undoes decoding.** The offsets of the slots of a sound layout meet the encoder's
contract, and from them and the values of the slots, looked up in order, the encoder makes the
same matrix again. Without stored zeros, so does encoding the matrix that the arrays decode to. As
the pointers of a sound layout are one more than its rows, their number is only asked to be what the
length of an array always is, a word. -/
theorem encode_toDense {m : Csr α} (hlayout : m.checkLayout = .ok ()) (hrows : 0 < m.rows)
    (hcols : 0 < m.cols) (hindex : m.cols < indexLimit) (hword : m.rows * m.cols < wordLimit)
    (hlength : m.rowPtr.size < wordLimit) :
    InputDefect.first? m.rows m.cols m.offsets.toArray = none ∧
      (∀ {σ : Type} (lookup : Nat → StateM σ α) (s t : σ),
        Lookups lookup m.offsets s m.values.toList t →
          (Csr.encode m.rows m.cols m.offsets.toArray lookup).run s = (.ok (.ok m), t)) ∧
      ((∀ x ∈ m.values, Element.isZero x = false) →
        ∃ d, m.toDense = .ok (.ok d) ∧ d.encode = .ok (.ok m)) := by
  have h : m.Sound := checkLayout_eq_ok_iff.mp hlayout
  have hcountable : m.rows + 1 < wordLimit := h.rowPtr_size ▸ hlength
  have hin := h.admissible hrows hcols hindex hword
  refine ⟨InputDefect.first?_eq_none_iff.mpr hin, fun lookup s t =>
    h.encode_offsets hin hcountable, fun hnonzero => ?_⟩
  obtain ⟨cells, hdense, hcells⟩ := h.toDense hword
  obtain ⟨hcompressible, hcompressed⟩ := h.compressed_eq hcells hin hcountable hnonzero
  exact ⟨_, hdense, by rw [hcompressible.encode_eq, hcompressed]⟩

/-- Empty rows before, between and after the others come back, and so do a NaN and an infinity.
The lookup counts its calls. -/
theorem encode_toDense_empty_rows :
    let m : Csr Binary64 := ⟨5, 3, #[0, 0, 2, 2, 3, 3], #[0, 2, 1],
      #[.nan, ⟨0x7ff0000000000000⟩, ⟨0xbff0000000000000⟩]⟩
    m.checkLayout = .ok () ∧ (∀ x ∈ m.values, Element.isZero x = false) ∧
      m.offsets = [3, 5, 10] ∧
      (Csr.encode (m := StateM Nat) 5 3 #[3, 5, 10] fun _ calls =>
        (m.value calls, calls + 1)).run 0 = (.ok (.ok m), 3) ∧
      ∃ d, m.toDense = .ok (.ok d) ∧ d.encode = .ok (.ok m) := by
  intro m
  have hlayout : m.checkLayout = .ok () := by decide
  have hnonzero : ∀ x ∈ m.values, Element.isZero x = false := by decide
  have hoffsets : m.offsets = [3, 5, 10] := by decide
  obtain ⟨-, hencode, hdense⟩ :=
    encode_toDense hlayout (by decide) (by decide) (by decide) (by decide) (by decide)
  have hcalls : Lookups (fun _ calls => (m.value calls, calls + 1)) m.offsets 0
      m.values.toList 3 := by
    rw [hoffsets]
    exact .cons rfl (.cons rfl (.cons rfl (.nil 3)))
  have hrun := hencode _ 0 3 hcalls
  rw [hoffsets] at hrun
  exact ⟨hlayout, hnonzero, hoffsets, hrun, hdense hnonzero⟩

end Csr

end SparseDatasets
