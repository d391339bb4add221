import SparseDatasets.Proofs.Decoding
import SparseDatasets.Proofs.Element
import SparseDatasets.Validation.Validate

/-!
# Validation reports

On a matrix that holds all its cells no check runs into a cell that is missing,
so validation gives a report on any arrays at all. The report lists the four
checks with what each of them found.

- `Dense.WellShaped.get_eq_ok_iff`: reading a cell.
- `searchFrom_total`, `searchFrom_eq_some_iff`: a search over steps that do not fail does not fail,
  and what it finds.
- `checkDecoding_eq`: what the comparison of the cells accepts.
- `checkDecoding_first`: what it says of the first cell that differs.
- `validate_eq_ok`: the report of a validation.
- `Report.isOk_iff`: a report without failures.
-/

namespace SparseDatasets

/-! ## Cells of a well-shaped matrix -/

namespace Dense

variable {α : Type} {d : Dense α}

theorem WellShaped.word (h : d.WellShaped) : d.rows * d.cols < wordLimit := by
  rw [← h.size_eq]
  exact h.size_lt

/-- Reading a cell inside the shape gives what stands at its offset. -/
theorem WellShaped.get_eq_ok_iff (h : d.WellShaped) {i j : Nat} (hi : i < d.rows)
    (hj : j < d.cols) {x : α} : d.get i j = .ok x ↔ d.cells[i * d.cols + j]? = some x := by
  rw [get, if_pos ⟨hi, hj⟩, offset_eq hi hj h.word]
  cases d.cells[i * d.cols + j]? <;> simp

theorem WellShaped.exists_cell (h : d.WellShaped) {i j : Nat} (hi : i < d.rows)
    (hj : j < d.cols) : ∃ x, d.cells[i * d.cols + j]? = some x :=
  ⟨_, Array.getElem?_eq_getElem (h.size_eq ▸ offset_lt hi hj)⟩

/-- What is held stands at the offset of a cell. -/
theorem WellShaped.exists_coordinates (h : d.WellShaped) {k : Nat} {x : α}
    (hx : d.cells[k]? = some x) : ∃ i < d.rows, ∃ j < d.cols, i * d.cols + j = k := by
  refine exists_offset ?_
  rw [← h.size_eq]
  exact (Array.getElem?_eq_some_iff.mp hx).1

theorem WellShaped.get_total (h : d.WellShaped) {i j : Nat} (hi : i < d.rows)
    (hj : j < d.cols) : ∃ x, d.get i j = .ok x := by
  obtain ⟨x, hx⟩ := h.exists_cell hi hj
  exact ⟨x, (h.get_eq_ok_iff hi hj).mpr hx⟩

end Dense

/-! ## The checks of the source matrix -/

/-- A search over steps that do not fail does not fail. -/
theorem searchFrom_total {ε β : Type} {f : Nat → Except ε (Option β)} {count start : Nat}
    (h : ∀ i, start ≤ i → i < start + count → ∃ r, f i = .ok r) :
    ∃ r, searchFrom f count start = .ok r := by
  induction count generalizing start with
  | zero => exact ⟨none, rfl⟩
  | succ count ih =>
    obtain ⟨r, hr⟩ := h start (Nat.le_refl _) (by omega)
    cases r with
    | some x => exact ⟨some x, by rw [searchFrom, hr]; rfl⟩
    | none =>
      obtain ⟨r, hrest⟩ : ∃ r, searchFrom f count (start + 1) = .ok r :=
        ih fun i hge hlt => h i (by omega) (by omega)
      exact ⟨r, by rw [searchFrom, hr]; exact hrest⟩

/-- A search finds what the first of its steps gives that gives anything. -/
theorem searchFrom_eq_some_iff {ε β : Type} {f : Nat → Except ε (Option β)} {count start : Nat}
    {x : β} : searchFrom f count start = .ok (some x) ↔
      ∃ i, start ≤ i ∧ i < start + count ∧ f i = .ok (some x) ∧
        ∀ j, start ≤ j → j < i → f j = .ok none := by
  induction count generalizing start with
  | zero =>
    constructor
    · intro h
      cases h
    · rintro ⟨i, hge, hlt, -⟩
      omega
  | succ count ih =>
    rw [searchFrom, bind_eq_ok]
    constructor
    · rintro ⟨r, hfirst, hrest⟩
      cases r with
      | some y =>
        cases hrest
        exact ⟨start, Nat.le_refl _, by omega, hfirst, fun j hge hlt => by omega⟩
      | none =>
        obtain ⟨i, hge, hlt, hfound, hbefore⟩ := ih.mp hrest
        refine ⟨i, by omega, by omega, hfound, fun j hj hji => ?_⟩
        rcases Nat.eq_or_lt_of_le hj with rfl | hj
        · exact hfirst
        · exact hbefore j hj hji
    · rintro ⟨i, hge, hlt, hfound, hbefore⟩
      rcases Nat.eq_or_lt_of_le hge with rfl | hgt
      · exact ⟨some x, hfound, rfl⟩
      · exact ⟨none, hbefore start (Nat.le_refl _) hgt,
          ih.mpr ⟨i, hgt, by omega, hfound, fun j hj hji => hbefore j (by omega) hji⟩⟩

namespace Dense

variable {α : Type} [Element α] {d : Dense α}

/-- The diagonal of a well-shaped matrix can be checked. -/
theorem WellShaped.checkDiagonal_total (h : d.WellShaped) :
    ∃ result, d.checkDiagonal = .ok result := by
  obtain ⟨found, hfound⟩ : ∃ r, searchFrom d.zeroAt? (min d.rows d.cols) 0 = .ok r := by
    refine searchFrom_total fun i _ hi => ?_
    obtain ⟨x, hx⟩ := h.get_total (i := i) (j := i) (by omega) (by omega)
    exact ⟨_, by rw [zeroAt?, hx]; rfl⟩
  rw [checkDiagonal, hfound]
  cases found <;> exact ⟨_, rfl⟩

/-- The symmetry of a well-shaped matrix can be checked. -/
theorem WellShaped.checkSymmetry_total (h : d.WellShaped) :
    ∃ result, d.checkSymmetry = .ok result := by
  by_cases hsquare : d.cols = d.rows
  · obtain ⟨found, hfound⟩ : ∃ r, searchFrom
        (fun row => searchFrom (d.differsAt? row) (d.rows - (row + 1)) (row + 1)) d.rows 0 =
          .ok r := by
      refine searchFrom_total fun row _ hrow => searchFrom_total fun col _ hcol => ?_
      obtain ⟨x, hx⟩ := h.get_total (i := row) (j := col) (by omega) (by omega)
      obtain ⟨y, hy⟩ := h.get_total (i := col) (j := row) (by omega) (by omega)
      exact ⟨_, by rw [differsAt?, hx, hy]; rfl⟩
    simp only [checkSymmetry, hsquare, ne_eq, not_true_eq_false, ↓reduceIte, hfound]
    cases found <;> exact ⟨_, rfl⟩
  · simp only [checkSymmetry, ne_eq, hsquare, not_false_eq_true, ↓reduceIte]
    exact ⟨_, rfl⟩

end Dense

/-! ## The comparison of the cells -/

variable {α : Type} [Element α] {d : Dense α} {m : Csr α}

/-- The comparison accepts iff each cell is reproduced by what the loose decoder leaves in it. -/
theorem checkDecoding_eq {cells : Array α} (hdecode : m.decodeLoosely d.rows d.cols = .ok cells) :
    ∃ result, checkDecoding d m = .ok result ∧
      (result = .ok () ↔ ∀ (k : Nat) (x y : α), d.cells[k]? = some x → cells[k]? = some y →
        Element.sameValue x y = true) := by
  -- the pairs are those of the cells that stand at one offset
  have hcell : ∀ (k : Nat) (x y : α),
      ((x, y), k) ∈ (d.cells.toList.zip cells.toList).zipIdx ↔
        d.cells[k]? = some x ∧ cells[k]? = some y := by
    intro k x y
    rw [List.mk_mem_zipIdx_iff_getElem?, List.getElem?_zip_eq_some]
    simp
  rw [checkDecoding, hdecode]
  simp only [bind, Except.bind]
  split
  · -- no pair differs
    rename_i hfind
    refine ⟨.ok (), rfl, fun _ k x y hx hy => ?_, fun _ => rfl⟩
    have hsame := List.find?_eq_none.mp hfind ((x, y), k) ((hcell k x y).mpr ⟨hx, hy⟩)
    simpa using hsame
  · rename_i x y k hfind
    obtain ⟨hx, hy⟩ := (hcell k x y).mp (List.mem_of_find?_eq_some hfind)
    refine ⟨_, rfl, fun h => (nomatch h), fun h => ?_⟩
    have hdiffers := List.find?_some hfind
    simp [h k x y hx hy] at hdiffers

/-- The comparison names the first cell that is not reproduced. -/
theorem checkDecoding_first {cells : Array α} (hdecode : m.decodeLoosely d.rows d.cols = .ok cells)
    {k : Nat} {x y : α} (hx : d.cells[k]? = some x) (hy : cells[k]? = some y)
    (hdiffers : Element.sameValue x y = false)
    (hbefore : ∀ j < k, ∀ u v, d.cells[j]? = some u → cells[j]? = some v →
      Element.sameValue u v = true) :
    checkDecoding d m = .ok (.error (.roundTrip (k / d.cols) (k % d.cols)
      (Element.toBinary64 x) (Element.toBinary64 y))) := by
  have hfind : (d.cells.toList.zip cells.toList).zipIdx.find?
      (fun cell => !Element.sameValue cell.1.1 cell.1.2) = some ((x, y), k) := by
    obtain ⟨hkd, rfl⟩ := Array.getElem?_eq_some_iff.mp hx
    obtain ⟨hkc, rfl⟩ := Array.getElem?_eq_some_iff.mp hy
    refine List.find?_eq_some_iff_getElem.mpr ⟨by simpa using hdiffers, k, ?_, ?_, ?_⟩
    · simpa using ⟨hkd, hkc⟩
    · simp
    · intro j hj
      have hsame := hbefore j hj _ _ (Array.getElem?_eq_getElem (Nat.lt_trans hj hkd))
        (Array.getElem?_eq_getElem (Nat.lt_trans hj hkc))
      simpa using hsame
  rw [checkDecoding, hdecode]
  simp only [bind, Except.bind, hfind]
  rfl

theorem checkDecoding_total (h : d.WellShaped) (m : Csr α) :
    ∃ result, checkDecoding d m = .ok result := by
  obtain ⟨cells, hdecode, -⟩ := Csr.decodeLoosely_eq_ok (m := m) h.word
  obtain ⟨result, hresult, -⟩ := checkDecoding_eq (d := d) hdecode
  exact ⟨result, hresult⟩

/-! ## Reports -/

/-- The status of a check that is asked for, or is not, with what it would give. -/
def Status.ofAsked (asked : Bool) (result : Except MatrixError Unit) : Status :=
  if asked then .ofResult result else .skipped

/-- **Validation of a well-shaped matrix always gives a report**, with what each check found. -/
theorem validate_eq_ok (h : d.WellShaped) (m : Csr α) (required : Requirements) :
    ∃ decoding diagonal symmetry,
      checkDecoding d m = .ok decoding ∧ d.checkDiagonal = .ok diagonal ∧
      d.checkSymmetry = .ok symmetry ∧
      validate d m required = .ok ⟨[(.structural, .ofResult (checkStructure d m)),
        (.decodeEquivalence, .ofResult decoding),
        (.diagonalNonzero, .ofAsked required.diagonal diagonal),
        (.symmetry, .ofAsked required.symmetry symmetry)]⟩ := by
  obtain ⟨decoding, hdecoding⟩ := checkDecoding_total h m
  obtain ⟨diagonal, hdiagonal⟩ := h.checkDiagonal_total
  obtain ⟨symmetry, hsymmetry⟩ := h.checkSymmetry_total
  refine ⟨decoding, diagonal, symmetry, hdecoding, hdiagonal, hsymmetry, ?_⟩
  rw [validate, hdecoding, hdiagonal, hsymmetry]
  cases required.diagonal <;> cases required.symmetry <;> rfl

theorem Status.error?_ofResult {result : Except MatrixError Unit} :
    (Status.ofResult result).error? = none ↔ result = .ok () := by
  cases result <;> simp [ofResult, error?]

/-- A report is clean iff none of its outcomes is a failure. -/
theorem Report.isOk_iff {report : Report} :
    report.isOk = true ↔ ∀ outcome ∈ report.outcomes, outcome.2.error? = none := by
  simp [isOk, failures, List.filterMap_eq_nil_iff]

/-- The shape and the layout pass iff the arrays have the shape of the matrix and are sound. -/
theorem checkStructure_eq_ok_iff {β : Type} {d : Dense β} {m : Csr β} :
    checkStructure d m = .ok () ↔ (m.rows = d.rows ∧ m.cols = d.cols) ∧ m.Sound := by
  rw [checkStructure, ← Csr.checkLayout_eq_ok_iff]
  by_cases hshape : (d.rows, d.cols) = (m.rows, m.cols)
  · obtain ⟨hrows, hcols⟩ := Prod.mk.inj hshape
    rw [if_neg (not_not.mpr hshape)]
    cases m.checkLayout <;> simp [hrows, hcols]
  · rw [if_pos hshape]
    have hdiffer : ¬ (m.rows = d.rows ∧ m.cols = d.cols) := fun h =>
      hshape (Prod.ext h.1.symm h.2.symm)
    simp [hdiffer]

end SparseDatasets
