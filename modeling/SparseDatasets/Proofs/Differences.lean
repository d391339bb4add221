import SparseDatasets.Proofs.Checks

/-!
# The first cell that differs

The comparison walks the cells of a matrix and of what the arrays decode to side by
side, as two lists, and turns the place where it stops into a row and a column by
division. On a matrix that holds all its cells this place is the first cell, row by
row, at which the two matrices differ, and the comparison fails whenever there is
such a cell.

- `offset_lt_offset_iff`: offsets are in the order of their cells.
- `Dense.FirstDifference`: the first cell at which two matrices differ.
- `Dense.exists_firstDifference`: matrices that differ have one.
- `Dense.FirstDifference.checkDecoding_eq`: the comparison names it.
- `checkDecoding_reports`: the comparison fails at a first difference, and only there.
-/

namespace SparseDatasets

/-- Offsets are in the order of their cells, row by row. -/
theorem offset_lt_offset_iff {cols row col i j : Nat} (hcol : col < cols) (hj : j < cols) :
    i * cols + j < row * cols + col ↔ i < row ∨ i = row ∧ j < col := by
  constructor
  · intro h
    rcases Nat.lt_trichotomy i row with hlt | rfl | hgt
    · exact .inl hlt
    · exact .inr ⟨rfl, by omega⟩
    · have hrow : row * cols + col < i * cols := (offset_lt_row_iff hcol).mpr hgt
      omega
  · rintro (hlt | ⟨rfl, hlt⟩)
    · have hrow : i * cols + j < row * cols := (offset_lt_row_iff hj).mpr hlt
      omega
    · omega

variable {α : Type} [Element α]

namespace Dense

/-- The first cell, row by row, at which two matrices differ, and what they hold there. -/
structure FirstDifference (d e : Dense α) (row col : Nat) (x y : α) : Prop where
  row_lt : row < d.rows
  col_lt : col < d.cols
  left : d.get row col = .ok x
  right : e.get row col = .ok y
  differs : Element.sameValue x y = false
  before : ∀ i < d.rows, ∀ j < d.cols, i < row ∨ i = row ∧ j < col →
    ∃ u v, d.get i j = .ok u ∧ e.get i j = .ok v ∧ Element.sameValue u v = true

variable {d : Dense α} {cells : Array α} {row col : Nat} {x y : α}

omit [Element α] in
/-- Another field of cells of the same shape. -/
theorem WellShaped.withCells (hd : d.WellShaped) (hsize : cells.size = d.rows * d.cols) :
    WellShaped { d with cells } :=
  ⟨hsize, hsize ▸ hd.word⟩

/-- Matrices that differ have a first difference. -/
theorem exists_firstDifference (hd : d.WellShaped) (hsize : cells.size = d.rows * d.cols) {k : Nat}
    (hx : d.cells[k]? = some x) (hy : cells[k]? = some y)
    (hdiffers : Element.sameValue x y = false) :
    ∃ row col x y, d.FirstDifference { d with cells } row col x y := by
  classical
  have he := hd.withCells hsize
  have hsome : ∃ k x y, d.cells[k]? = some x ∧ cells[k]? = some y ∧
      Element.sameValue x y = false := ⟨k, x, y, hx, hy, hdiffers⟩
  obtain ⟨x, y, hx, hy, hdiffers⟩ := Nat.find_spec hsome
  obtain ⟨row, hrow, col, hcol, hk⟩ := hd.exists_coordinates hx
  rw [← hk] at hx hy
  refine ⟨row, col, x, y, hrow, hcol, (hd.get_eq_ok_iff hrow hcol).mpr hx,
    (he.get_eq_ok_iff hrow hcol).mpr hy, hdiffers, fun i hi j hj hbefore => ?_⟩
  obtain ⟨u, hu⟩ := hd.exists_cell hi hj
  obtain ⟨v, hv⟩ := he.exists_cell hi hj
  refine ⟨u, v, (hd.get_eq_ok_iff hi hj).mpr hu, (he.get_eq_ok_iff hi hj).mpr hv, ?_⟩
  by_contra hother
  -- the offset of this cell would be a smaller one at which the two differ
  have hlt : i * d.cols + j < Nat.find hsome := hk ▸ (offset_lt_offset_iff hcol hj).mpr hbefore
  exact Nat.find_min hsome hlt ⟨u, v, hu, hv, by simpa using hother⟩

/-- The comparison names the first difference from what the arrays decode to. -/
theorem FirstDifference.checkDecoding_eq {m : Csr α}
    (h : d.FirstDifference { d with cells } row col x y) (hd : d.WellShaped)
    (hsize : cells.size = d.rows * d.cols) (hdecode : m.decodeLoosely d.rows d.cols = .ok cells) :
    checkDecoding d m = .ok (.error (.roundTrip row col (Element.toBinary64 x)
      (Element.toBinary64 y))) := by
  have he := hd.withCells hsize
  have hx := (hd.get_eq_ok_iff h.row_lt h.col_lt).mp h.left
  have hy := (he.get_eq_ok_iff h.row_lt h.col_lt).mp h.right
  have hnamed := checkDecoding_first hdecode hx hy h.differs fun k hk u v hu hv => ?_
  · rwa [offset_div row h.col_lt, offset_mod row h.col_lt] at hnamed
  · obtain ⟨i, hi, j, hj, rfl⟩ := hd.exists_coordinates hu
    obtain ⟨u', v', hu', hv', hsame⟩ :=
      h.before i hi j hj ((offset_lt_offset_iff h.col_lt hj).mp hk)
    rw [(hd.get_eq_ok_iff hi hj).mp hu', Option.some.injEq] at hu
    rw [(he.get_eq_ok_iff hi hj).mp hv', Option.some.injEq] at hv
    rwa [← hu, ← hv]

end Dense

/-- **A failed comparison points at the first wrong cell.** On a matrix that holds all its cells and
on any arrays, the comparison gives a result. It is an error iff some cell differs from what the
arrays decode to, and the error then names the first such cell, row by row, with the two values
that differ. -/
theorem checkDecoding_reports {d : Dense α} (hd : d.WellShaped) (m : Csr α) :
    ∃ cells result, m.decodeLoosely d.rows d.cols = .ok cells ∧ checkDecoding d m = .ok result ∧
      (∀ error, result = .error error ↔
        ∃ row col x y, d.FirstDifference { d with cells } row col x y ∧
          error = .roundTrip row col (Element.toBinary64 x) (Element.toBinary64 y)) ∧
      ((∃ error, result = .error error) ↔
        ∃ i < d.rows, ∃ j < d.cols, ∃ x y, d.get i j = .ok x ∧
          Dense.get { d with cells } i j = .ok y ∧ Element.sameValue x y = false) := by
  obtain ⟨cells, hdecode, hsize, -⟩ := Csr.decodeLoosely_eq_ok (m := m) hd.word
  obtain ⟨result, hresult, hok⟩ := checkDecoding_eq (d := d) hdecode
  have he := hd.withCells hsize
  -- a failure comes from a cell that differs, and so from a first one
  have hfirst : ∀ error, result = .error error →
      ∃ row col x y, d.FirstDifference { d with cells } row col x y := by
    rintro error rfl
    by_contra hnone
    have haccepted := hok.mpr fun k x y hx hy => ?_
    · cases haccepted
    · by_contra hother
      exact hnone (Dense.exists_firstDifference hd hsize hx hy (by simpa using hother))
  have hnamed : ∀ {row col x y}, d.FirstDifference { d with cells } row col x y →
      result = .error (.roundTrip row col (Element.toBinary64 x) (Element.toBinary64 y)) :=
    fun h => Except.ok.inj (hresult.symm.trans (h.checkDecoding_eq hd hsize hdecode))
  refine ⟨cells, result, hdecode, hresult, fun error => ⟨fun herror => ?_, ?_⟩, ?_, ?_⟩
  · obtain ⟨row, col, x, y, h⟩ := hfirst error herror
    exact ⟨row, col, x, y, h, Except.error.inj (herror.symm.trans (hnamed h))⟩
  · rintro ⟨row, col, x, y, h, rfl⟩
    exact hnamed h
  · rintro ⟨error, herror⟩
    obtain ⟨row, col, x, y, h⟩ := hfirst error herror
    exact ⟨row, h.row_lt, col, h.col_lt, x, y, h.left, h.right, h.differs⟩
  · rintro ⟨i, hi, j, hj, x, y, hx, hy, hdiffers⟩
    obtain ⟨row, col, x, y, h⟩ := Dense.exists_firstDifference hd hsize
      ((hd.get_eq_ok_iff hi hj).mp hx) ((he.get_eq_ok_iff hi hj).mp hy) hdiffers
    exact ⟨_, hnamed h⟩

/-- A NaN that is decoded and a value that is not, against arrays of another shape. -/
theorem checkDecoding_reports_other_shape :
    let d : Dense Binary64 := ⟨2, 2, #[.nan, 1, 1, 0]⟩
    let m : Csr Binary64 := ⟨5, 1, #[0, 2, 9], #[0, 1, 1], #[.nan, 1, 1]⟩
    d.WellShaped ∧ checkDecoding d m = .ok (.error (.roundTrip 1 0 1 0)) ∧
      d.FirstDifference ⟨2, 2, #[.nan, 1, 0, 1]⟩ 1 0 1 0 := by
  intro d m
  have hd : d.WellShaped := ⟨rfl, by decide⟩
  have hdecodes : m.decodeLoosely 2 2 = .ok #[.nan, 1, 0, 1] := by decide +kernel
  have hfailed : checkDecoding d m = .ok (.error (.roundTrip 1 0 1 0)) := by decide +kernel
  obtain ⟨cells, result, hcells, hresult, hreport, -⟩ := checkDecoding_reports hd m
  cases hdecodes.symm.trans hcells
  cases hfailed.symm.trans hresult
  obtain ⟨row, col, x, y, hfirst, herror⟩ := (hreport _).mp rfl
  cases herror
  exact ⟨hd, hfailed, hfirst⟩

end SparseDatasets
