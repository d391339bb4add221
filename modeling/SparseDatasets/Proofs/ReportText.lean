import SparseDatasets.Proofs.Forms
import SparseDatasets.Proofs.Offenders

/-!
# Reports read back

Everything that a report says of a matrix and its arrays is counted in words, so a
report is read back from its text as far as counts and positions go. Not so the two
values of a failed round trip: they are cells of the matrices, and a cell that is no
finite number is written as null.

- `Dense.Sized`, `Csr.Sized`: matrices whose sizes are words.
- `Csr.checkLayout_sizes`: the numbers in a defect of the layout.
- `validate_numbers`: the numbers in a report.
- `validate_ofText?`: **a report is read back exactly if its doubles are finite.**
-/

namespace SparseDatasets

/-- A word can count the rows, the columns and the cells. -/
structure Dense.Sized {α : Type} (d : Dense α) : Prop where
  wellShaped : d.WellShaped
  rows_lt : d.rows < wordLimit
  cols_lt : d.cols < wordLimit

/-- A word can count the rows, the columns and the entries of each array. -/
structure Csr.Sized {α : Type} (m : Csr α) : Prop where
  rows_lt : m.rows < wordLimit
  cols_lt : m.cols < wordLimit
  rowPtr_lt : m.rowPtr.size < wordLimit
  colIdx_lt : m.colIdx.size < wordLimit
  values_lt : m.values.size < wordLimit

theorem forall_mem_pair {P : Nat → Prop} {a b : Nat} (ha : P a) (hb : P b) :
    ∀ n ∈ [a, b], P n :=
  List.forall_mem_cons.mpr ⟨ha, List.forall_mem_singleton.mpr hb⟩

/-! ## The layout -/

namespace Csr

variable {α : Type} {m : Csr α} {defect : LayoutDefect}

theorem pointer_lt (m : Csr α) (row : Nat) : m.pointer row < wordLimit :=
  Nat.lt_trans (m.rowPtr.getD row 0).toNat_lt (by decide)

theorem checkSlot_sizes (h : m.Sized) {row start slot : Nat} (hrow : row < wordLimit)
    (hslot : slot < wordLimit) (herror : m.checkSlot row start slot = .error defect) :
    ∀ n ∈ defect.sizes, n < wordLimit := by
  unfold checkSlot at herror
  dsimp only at herror
  split at herror
  · cases herror
    exact forall_mem_pair hslot h.cols_lt
  · split at herror
    · cases herror
      exact forall_mem_pair hrow hslot
    · cases herror

theorem checkRow_sizes (h : m.Sized) {cursor row : Nat} (hrow : row < wordLimit)
    (herror : m.checkRow cursor row = .error defect) : ∀ n ∈ defect.sizes, n < wordLimit := by
  have hspan : m.pointer (row + 1) - m.pointer row < wordLimit :=
    Nat.lt_of_le_of_lt (Nat.sub_le _ _) (m.pointer_lt (row + 1))
  simp only [checkRow, throw_bind, guard_eq_error, bind_eq_error] at herror
  rcases herror with ⟨-, rfl⟩ | ⟨-, hslots | ⟨_, -, hrest⟩⟩
  · exact List.forall_mem_singleton.mpr hrow
  · -- the slots that are checked have both a column and a value
    obtain ⟨slot, hslot, herror⟩ := forM_eq_error hslots
    obtain ⟨hge, hlt⟩ := List.mem_range'_1.mp hslot
    have hcount : slot < m.colIdx.size := by
      have : m.slotCount ≤ m.colIdx.size := Nat.min_le_left _ _
      omega
    exact checkSlot_sizes h hrow (Nat.lt_trans hcount h.colIdx_lt) herror
  · rcases hrest with ⟨-, rfl⟩ | ⟨-, hnone⟩
    · have hconsumed : min (m.pointer (row + 1) - m.pointer row) (m.slotCount - cursor) <
          wordLimit := Nat.lt_of_le_of_lt (Nat.min_le_left _ _) hspan
      exact List.forall_mem_cons.mpr ⟨hrow, forall_mem_pair hspan hconsumed⟩
    · cases hnone

/-- The numbers in a defect of the layout are words. -/
theorem checkLayout_sizes (h : m.Sized) (herror : m.checkLayout = .error defect) :
    ∀ n ∈ defect.sizes, n < wordLimit := by
  simp only [checkLayout, throw_bind, guard_eq_error, bind_eq_error] at herror
  rcases herror with ⟨-, rfl⟩ | ⟨-, ⟨-, rfl⟩ | ⟨-, hrows | ⟨_, -, hrest⟩⟩⟩
  · have hexpected : min (m.rows + 1) (wordLimit - 1) < wordLimit :=
      Nat.lt_of_le_of_lt (Nat.min_le_right _ _) (by decide)
    exact forall_mem_pair hexpected h.rowPtr_lt
  · exact fun n hn => absurd hn List.not_mem_nil
  · obtain ⟨cursor, row, hrow, herror⟩ := foldlM_eq_error hrows
    exact checkRow_sizes h (Nat.lt_trans (List.mem_range.mp hrow) h.rows_lt) herror
  · rcases hrest with ⟨-, rfl⟩ | ⟨-, hnone⟩
    · exact List.forall_mem_cons.mpr
        ⟨m.pointer_lt m.rows, forall_mem_pair h.colIdx_lt h.values_lt⟩
    · cases hnone

end Csr

/-! ## The checks -/

section Checks

variable {α : Type} {d : Dense α} {m : Csr α} {error : MatrixError}

theorem checkStructure_numbers (hd : d.Sized) (hm : m.Sized)
    (herror : checkStructure d m = .error error) :
    (∀ n ∈ error.sizes, n < wordLimit) ∧ error.doubles = [] := by
  unfold checkStructure at herror
  split at herror
  · cases herror
    exact ⟨List.forall_mem_cons.mpr ⟨hd.rows_lt, List.forall_mem_cons.mpr ⟨hd.cols_lt,
      forall_mem_pair hm.rows_lt hm.cols_lt⟩⟩, rfl⟩
  · split at herror
    · cases herror
    · rename_i hlayout
      cases herror
      exact ⟨Csr.checkLayout_sizes hm hlayout, rfl⟩

variable [Element α]

/-- A failed round trip names a cell of the matrix. -/
theorem checkDecoding_eq_roundTrip (hd : d.Sized)
    (herror : checkDecoding d m = .ok (.error error)) :
    ∃ row col x y, error = .roundTrip row col x y ∧ row < wordLimit ∧ col < wordLimit := by
  obtain ⟨cells, -, hfound⟩ := bind_eq_ok.mp herror
  dsimp only at hfound
  split at hfound
  · cases hfound
  · rename_i x y k hfind
    cases hfound
    have hmem := List.mem_of_find?_eq_some hfind
    rw [List.mk_mem_zipIdx_iff_getElem?, List.getElem?_zip_eq_some] at hmem
    have hk : k < d.cells.size := by
      have hx : d.cells[k]? = some x := by simpa using hmem.1
      exact (Array.getElem?_eq_some_iff.mp hx).1
    have hlt : k < wordLimit := Nat.lt_trans hk hd.wellShaped.size_lt
    exact ⟨_, _, _, _, rfl, Nat.lt_of_le_of_lt (Nat.div_le_self _ _) hlt,
      Nat.lt_of_le_of_lt (Nat.mod_le _ _) hlt⟩

theorem Dense.checkDiagonal_numbers (hd : d.Sized)
    (herror : d.checkDiagonal = .ok (.error error)) :
    (∀ n ∈ error.sizes, n < wordLimit) ∧ error.doubles = [] := by
  obtain ⟨i, rfl, hfirst⟩ := checkDiagonal_eq_error_iff.mp herror
  have hrow : i < d.rows := (Nat.lt_min.mp hfirst.lt).1
  exact ⟨List.forall_mem_singleton.mpr (Nat.lt_trans hrow hd.rows_lt), rfl⟩

theorem Dense.checkSymmetry_numbers (hd : d.Sized)
    (herror : d.checkSymmetry = .ok (.error error)) :
    (∀ n ∈ error.sizes, n < wordLimit) ∧ error.doubles = [] := by
  rcases checkSymmetry_eq_error_iff.mp herror with ⟨-, rfl⟩ | ⟨-, row, col, rfl, hfirst⟩
  · exact ⟨forall_mem_pair hd.rows_lt hd.cols_lt, rfl⟩
  · have hcol : col < wordLimit := Nat.lt_trans hfirst.col_lt hd.rows_lt
    exact ⟨forall_mem_pair (Nat.lt_trans hfirst.above hcol) hcol, rfl⟩

/-- The numbers in the status of a check are those in its error. -/
theorem Status.numbers_ofResult {result : Except MatrixError Unit}
    (h : ∀ error, result = .error error →
      (∀ n ∈ error.sizes, n < wordLimit) ∧ error.doubles = []) :
    (∀ n ∈ (ofResult result).sizes, n < wordLimit) ∧ (ofResult result).doubles = [] := by
  cases result with
  | ok _ => exact ⟨fun n hn => absurd hn List.not_mem_nil, rfl⟩
  | error error => exact h error rfl

theorem Status.numbers_ofAsked {result : Except MatrixError Unit} (asked : Bool)
    (h : ∀ error, result = .error error →
      (∀ n ∈ error.sizes, n < wordLimit) ∧ error.doubles = []) :
    (∀ n ∈ (ofAsked asked result).sizes, n < wordLimit) ∧ (ofAsked asked result).doubles = [] := by
  cases asked with
  | false => exact ⟨fun n hn => absurd hn List.not_mem_nil, rfl⟩
  | true => exact numbers_ofResult h

/-- The counts and positions in a report are words, and its doubles are those of the comparison of
the cells. -/
theorem validate_numbers (hd : d.Sized) (hm : m.Sized) (required : Requirements) :
    ∃ report, validate d m required = .ok report ∧ (∀ n ∈ report.sizes, n < wordLimit) ∧
      (checkDecoding d m = .ok (.ok ()) ∧ report.doubles = [] ∨
        ∃ row col x y, checkDecoding d m = .ok (.error (.roundTrip row col x y)) ∧
          report.doubles = [x, y]) := by
  obtain ⟨decoding, diagonal, symmetry, hdecoding, hdiagonal, hsymmetry, hreport⟩ :=
    validate_eq_ok hd.wellShaped m required
  obtain ⟨hlayout, hlayout'⟩ := Status.numbers_ofResult fun error herror =>
    checkStructure_numbers hd hm herror
  obtain ⟨hdiagonal, hdiagonal'⟩ := Status.numbers_ofAsked required.diagonal fun error herror =>
    Dense.checkDiagonal_numbers hd (herror ▸ hdiagonal)
  obtain ⟨hsymmetry, hsymmetry'⟩ := Status.numbers_ofAsked required.symmetry fun error herror =>
    Dense.checkSymmetry_numbers hd (herror ▸ hsymmetry)
  have hcells : ∀ n ∈ (Status.ofResult decoding).sizes, n < wordLimit := by
    cases decoding with
    | ok _ => exact fun n hn => absurd hn List.not_mem_nil
    | error error =>
      obtain ⟨row, col, x, y, rfl, hrow, hcol⟩ := checkDecoding_eq_roundTrip hd hdecoding
      exact forall_mem_pair hrow hcol
  refine ⟨_, hreport, ?_, ?_⟩
  · intro n hn
    obtain ⟨outcome, houtcome, hn⟩ := List.mem_flatMap.mp hn
    simp only [List.mem_cons, List.not_mem_nil, or_false] at houtcome
    rcases houtcome with rfl | rfl | rfl | rfl
    · exact hlayout n hn
    · exact hcells n hn
    · exact hdiagonal n hn
    · exact hsymmetry n hn
  · simp only [Report.doubles, List.flatMap_cons, List.flatMap_nil, hlayout', hdiagonal',
      hsymmetry', List.nil_append, List.append_nil]
    cases decoding with
    | ok _ => exact .inl ⟨hdecoding, rfl⟩
    | error error =>
      obtain ⟨row, col, x, y, rfl, -, -⟩ := checkDecoding_eq_roundTrip hd hdecoding
      exact .inr ⟨row, col, x, y, hdecoding, rfl⟩

end Checks

/-! ## The texts of a report -/

/-- **A report is read back exactly if its doubles are finite numbers.** Validation of a matrix and
of arrays whose sizes are words gives a report. A passed comparison of the cells puts no double
into it, and a failed one the two values that differ. If these are finite, the report is read back
from its compact text and from the one with one item a line; otherwise both are refused. -/
theorem validate_ofText? {α : Type} [Element α] {d : Dense α} {m : Csr α} (hd : d.Sized)
    (hm : m.Sized) (required : Requirements) :
    ∃ report, validate d m required = .ok report ∧
      (checkDecoding d m = .ok (.ok ()) ∧ report.doubles = [] ∨
        ∃ row col x y, checkDecoding d m = .ok (.error (.roundTrip row col x y)) ∧
          report.doubles = [x, y]) ∧
      JsonForm.ofText? (JsonForm.text report) =
        (if ∀ x ∈ report.doubles, x.IsFinite then some report else none) ∧
      JsonForm.ofText? (JsonForm.prettyText report) =
        (if ∀ x ∈ report.doubles, x.IsFinite then some report else none) := by
  obtain ⟨report, hreport, hsizes, hdoubles⟩ := validate_numbers hd hm required
  exact ⟨report, hreport, hdoubles, Report.ofText?_render Spacing.compact_blank hsizes,
    Report.ofText?_render Spacing.pretty_blank hsizes⟩

/-- The two finite values of a failed round trip are read back. -/
theorem validate_ofText?_finite :
    let d : Dense Binary64 := ⟨1, 1, #[1]⟩
    let m : Csr Binary64 := ⟨1, 1, #[0, 0], #[], #[]⟩
    d.Sized ∧ m.Sized ∧ ∃ report, validate d m .matrixVector = .ok report ∧
      report.doubles = [1, 0] ∧ JsonForm.ofText? (JsonForm.text report) = some report ∧
      JsonForm.ofText? (JsonForm.prettyText report) = some report := by
  intro d m
  have hd : d.Sized := ⟨⟨rfl, by decide⟩, by decide, by decide⟩
  have hm : m.Sized := ⟨by decide, by decide, by decide, by decide, by decide⟩
  have hfailed : checkDecoding d m = .ok (.error (.roundTrip 0 0 1 0)) := by decide +kernel
  obtain ⟨report, hreport, hcells, hcompact, hpretty⟩ := validate_ofText? hd hm .matrixVector
  have hdoubles : report.doubles = [1, 0] := by
    rcases hcells with ⟨hpassed, -⟩ | ⟨row, col, x, y, hrefused, hdoubles⟩
    · cases hfailed.symm.trans hpassed
    · cases hfailed.symm.trans hrefused
      exact hdoubles
  have hfinite : ∀ x ∈ report.doubles, x.IsFinite := by
    rw [hdoubles]
    decide +kernel
  rw [if_pos hfinite] at hcompact hpretty
  exact ⟨hd, hm, report, hreport, hdoubles, hcompact, hpretty⟩

/-- A NaN that the arrays do not store is written as null, and both texts are refused. -/
theorem validate_ofText?_nan :
    let d : Dense Binary64 := ⟨1, 1, #[.nan]⟩
    let m : Csr Binary64 := ⟨1, 1, #[0, 0], #[], #[]⟩
    let report : Report := ⟨[(.structural, .passed),
      (.decodeEquivalence, .failed (.roundTrip 0 0 .nan 0)), (.diagonalNonzero, .skipped),
      (.symmetry, .skipped)]⟩
    d.Sized ∧ m.Sized ∧ validate d m .matrixVector = .ok report ∧
      (JsonForm.ofText? (JsonForm.text report) : Option Report) = none ∧
      (JsonForm.ofText? (JsonForm.prettyText report) : Option Report) = none := by
  intro d m report
  have hsizes : ∀ n ∈ report.sizes, n < UInt64.size := by decide
  have hnan : ¬ ∀ x ∈ report.doubles, x.IsFinite := by decide
  have hcompact := Report.ofText?_render Spacing.compact_blank hsizes
  have hpretty := Report.ofText?_render Spacing.pretty_blank hsizes
  rw [if_neg hnan] at hcompact hpretty
  exact ⟨⟨⟨rfl, by decide⟩, by decide, by decide⟩,
    ⟨by decide, by decide, by decide, by decide, by decide⟩, by decide +kernel, hcompact, hpretty⟩

end SparseDatasets
