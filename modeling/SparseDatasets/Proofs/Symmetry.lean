import SparseDatasets.Proofs.Verdict

/-!
# Symmetry and the diagonal

Two of the checks look at the source matrix alone: one at its diagonal, one at
the entries above the diagonal and the ones across from them. The checks of the
arrays, on the other hand, know nothing of symmetry. Only all four together say
what the conjugate gradient method needs to hold of the arrays that it reads:
every diagonal entry is stored once and is not zero, and every stored nonzero has
its mirror image stored as well.

- `searchFrom_eq_none_iff`: when a search finds nothing.
- `Dense.checkDiagonal_eq_ok_iff`: when the diagonal passes.
- `Dense.Mirrored`, `Dense.WellShaped.checkSymmetry_eq_ok_iff`: when the symmetry passes.
- `Csr.Stores`: a slot of a row with a column and a value.
- `Csr.Represents.exists_stores`: what is not zero is stored.
- `validate_conjugateGradient`: what acceptance says of the arrays.
-/

namespace SparseDatasets

/-- A search finds nothing iff none of its steps does. -/
theorem searchFrom_eq_none_iff {ε β : Type} {f : Nat → Except ε (Option β)} {count start : Nat} :
    searchFrom f count start = .ok none ↔
      ∀ i, start ≤ i → i < start + count → f i = .ok none := by
  induction count generalizing start with
  | zero =>
    constructor
    · intro _ i hge hlt
      omega
    · intro _
      rfl
  | succ count ih =>
    rw [searchFrom, bind_eq_ok]
    constructor
    · rintro ⟨r, hfirst, hrest⟩ i hge hlt
      cases r with
      | some x => cases hrest
      | none =>
        rcases Nat.eq_or_lt_of_le hge with rfl | hgt
        · exact hfirst
        · exact ih.mp hrest i hgt (by omega)
    · intro h
      exact ⟨none, h start (Nat.le_refl _) (by omega),
        ih.mpr fun i hge hlt => h i (by omega) (by omega)⟩

/-! ## The checks of the source matrix -/

namespace Dense

variable {α : Type} [Element α] {d : Dense α}

theorem zeroAt?_eq_none_iff {i : Nat} :
    d.zeroAt? i = .ok none ↔ ∃ x, d.get i i = .ok x ∧ Element.isZero x = false := by
  rw [zeroAt?, bind_eq_ok]
  refine exists_congr fun x => and_congr_right fun _ => ?_
  cases Element.isZero x <;> simp [pure_eq_ok]

/-- The diagonal passes iff none of its entries is zero. -/
theorem checkDiagonal_eq_ok_iff : d.checkDiagonal = .ok (.ok ()) ↔
    ∀ i < min d.rows d.cols, ∃ x, d.get i i = .ok x ∧ Element.isZero x = false := by
  have hsearch : searchFrom d.zeroAt? (min d.rows d.cols) 0 = .ok none ↔
      ∀ i < min d.rows d.cols, ∃ x, d.get i i = .ok x ∧ Element.isZero x = false := by
    simp only [searchFrom_eq_none_iff, zeroAt?_eq_none_iff, Nat.zero_le, Nat.zero_add,
      forall_true_left]
  rw [← hsearch, checkDiagonal, bind_eq_ok]
  constructor
  · rintro ⟨r, hr, hnone⟩
    cases r with
    | some i => cases hnone
    | none => exact hr
  · intro h
    exact ⟨none, h, rfl⟩

/-- The entry of a cell and the one across the diagonal from it reproduce each other. -/
def MirrorsAt (d : Dense α) (i j : Nat) : Prop :=
  ∃ x y, d.get i j = .ok x ∧ d.get j i = .ok y ∧ Element.sameValue x y = true

/-- The matrix is square, and every entry reproduces the one across the diagonal. -/
structure Mirrored (d : Dense α) : Prop where
  cols_eq : d.cols = d.rows
  entry : ∀ i < d.rows, ∀ j < d.rows, d.MirrorsAt i j

theorem differsAt?_eq_none_iff {i j : Nat} : d.differsAt? i j = .ok none ↔ d.MirrorsAt i j := by
  simp only [differsAt?, bind_eq_ok, pure_eq_ok, ite_eq_left_iff, reduceCtorEq, imp_false,
    Bool.not_eq_true, Bool.not_eq_false, MirrorsAt]
  constructor
  · rintro ⟨x, hx, y, hy, hsame⟩
    exact ⟨x, y, hx, hy, hsame⟩
  · rintro ⟨x, y, hx, hy, hsame⟩
    exact ⟨x, hx, y, hy, hsame⟩

/-- The symmetry passes iff the matrix is square and its upper triangle mirrors the lower. -/
theorem checkSymmetry_eq_ok_iff : d.checkSymmetry = .ok (.ok ()) ↔
    d.cols = d.rows ∧ ∀ i < d.rows, ∀ j < d.rows, i < j → d.MirrorsAt i j := by
  have hsearch : searchFrom
      (fun row => searchFrom (d.differsAt? row) (d.rows - (row + 1)) (row + 1)) d.rows 0 =
        .ok none ↔ ∀ i < d.rows, ∀ j < d.rows, i < j → d.MirrorsAt i j := by
    simp only [searchFrom_eq_none_iff, differsAt?_eq_none_iff]
    constructor
    · intro h i hi j hj hlt
      exact h i (Nat.zero_le i) (by omega) j hlt (by omega)
    · intro h i _ hi j hlt hj
      exact h i (by omega) j (by omega) hlt
  rw [← hsearch, checkSymmetry]
  by_cases hsquare : d.cols = d.rows
  · simp only [hsquare, ne_eq, not_true_eq_false, ↓reduceIte, true_and, bind_eq_ok]
    constructor
    · rintro ⟨r, hr, hnone⟩
      cases r with
      | some cell => cases hnone
      | none => exact hr
    · intro h
      exact ⟨none, h, rfl⟩
  · simp only [ne_eq, hsquare, not_false_eq_true, ↓reduceIte, false_and, iff_false]
    intro h
    cases h

/-- The entries above the diagonal stand for all of them. -/
theorem WellShaped.checkSymmetry_eq_ok_iff [LawfulElement α] (hd : d.WellShaped) :
    d.checkSymmetry = .ok (.ok ()) ↔ d.Mirrored := by
  rw [Dense.checkSymmetry_eq_ok_iff]
  constructor
  · rintro ⟨hsquare, hupper⟩
    refine ⟨hsquare, fun i hi j hj => ?_⟩
    rcases Nat.lt_trichotomy i j with hlt | rfl | hgt
    · exact hupper i hi j hj hlt
    · obtain ⟨x, hx⟩ := hd.get_total hi (hsquare ▸ hi)
      exact ⟨x, x, hx, hx, Element.sameValue_refl x⟩
    · obtain ⟨x, y, hx, hy, hsame⟩ := hupper j hj i hi hgt
      exact ⟨y, x, hy, hx, Element.sameValue_symm hsame⟩
  · intro h
    exact ⟨h.cols_eq, fun i hi j hj _ => h.entry i hi j hj⟩

end Dense

/-! ## What the arrays store -/

namespace Csr

variable {α : Type}

/-- The slot lies in the span of the row, and it has the column and the value. -/
structure Stores (m : Csr α) (row col slot : Nat) (x : α) : Prop where
  inRow : m.InRow row slot
  column_eq : m.colIdx[slot]?.map UInt32.toNat = some col
  value_eq : m.values[slot]? = some x

variable {m : Csr α} {row col slot : Nat} {x : α}

theorem Stores.holds (h : m.Stores row col slot x) : m.Holds row col slot := by
  obtain ⟨c, hc, rfl⟩ := Option.map_eq_some_iff.mp h.column_eq
  exact ⟨h.inRow, by rw [column, Array.getD_eq_getD_getElem?, hc, Option.getD_some]⟩

variable [Element α]

theorem Stores.value (h : m.Stores row col slot x) : m.value slot = x := by
  rw [Csr.value, Array.getD_eq_getD_getElem?, h.value_eq, Option.getD_some]

/-- In a sound layout both arrays have the slots of the rows. -/
theorem Sound.stores_of_holds (h : m.Sound) (hrow : row < m.rows) (hslot : m.Holds row col slot) :
    m.Stores row col slot (m.value slot) := by
  have hlt : slot < m.pointer m.rows := h.inRow_lt (Nat.le_refl _) hrow hslot.1
  have hcol : slot < m.colIdx.size := h.colIdx_size ▸ hlt
  have hval : slot < m.values.size := h.values_size ▸ hlt
  refine ⟨hslot.1, ?_, ?_⟩
  · have hcolumn := hslot.2
    rw [column, Array.getD_eq_getD_getElem?, Array.getElem?_eq_getElem hcol] at hcolumn
    rw [Array.getElem?_eq_getElem hcol]
    exact congrArg some hcolumn
  · rw [Csr.value, Array.getD_eq_getD_getElem?, Array.getElem?_eq_getElem hval, Option.getD_some]

variable {d : Dense α}

/-- A stored value reproduces the entry of its cell. -/
theorem Represents.sameValue_stores (h : m.Represents d) (hd : d.WellShaped) (hrow : row < d.rows)
    (hcol : col < d.cols) {y : α} (hget : d.get row col = .ok y) (hx : m.Stores row col slot x) :
    Element.sameValue y x = true := by
  have hcell := (hd.get_eq_ok_iff hrow hcol).mp hget
  rw [← hx.value]
  exact (h.reproduces.cell hd hrow hcol hcell).1 slot hx.holds

/-- An entry that is not zero is stored: a cell without a slot would be decoded as zero. -/
theorem Represents.exists_stores (h : m.Represents d) (hd : d.WellShaped) (hrow : row < d.rows)
    (hcol : col < d.cols) {y : α} (hget : d.get row col = .ok y)
    (hnonzero : Element.isZero y = false) : ∃ slot x, m.Stores row col slot x := by
  have hcell := (hd.get_eq_ok_iff hrow hcol).mp hget
  by_contra hnone
  have hempty : ∀ slot, ¬ m.Holds row col slot := by
    intro slot hslot
    exact hnone ⟨slot, _, h.sound.stores_of_holds (h.rows_eq ▸ hrow) hslot⟩
  rw [(h.reproduces.cell hd hrow hcol hcell).2 hempty] at hnonzero
  cases hnonzero

variable [LawfulElement α]

/-- A diagonal without zeros is stored, each entry once and not as a zero. -/
theorem Represents.stores_diagonal (h : m.Represents d) (hd : d.WellShaped)
    (hdiagonal : d.checkDiagonal = .ok (.ok ())) {i : Nat} (hi : i < min d.rows d.cols) :
    ∃ slot x, m.Stores i i slot x ∧ Element.isZero x = false ∧
      ∀ slot' y, m.Stores i i slot' y → slot' = slot := by
  have hrow : i < d.rows := by omega
  have hcol : i < d.cols := by omega
  obtain ⟨y, hget, hnonzero⟩ := Dense.checkDiagonal_eq_ok_iff.mp hdiagonal i hi
  obtain ⟨slot, x, hx⟩ := h.exists_stores hd hrow hcol hget hnonzero
  refine ⟨slot, x, hx, ?_, fun slot' z hz => ?_⟩
  · rw [← Element.isZero_eq_of_sameValue (h.sameValue_stores hd hrow hcol hget hx)]
    exact hnonzero
  · exact h.sound.holds_unique (h.rows_eq ▸ hrow) hz.holds hx.holds

/-- The mirror image of a stored nonzero is stored, and reproduces it. -/
theorem Represents.stores_mirror (h : m.Represents d) (hd : d.WellShaped) (hmirror : d.Mirrored)
    {i j : Nat} (hi : i < d.rows) (hj : j < d.rows) (hx : m.Stores i j slot x)
    (hnonzero : Element.isZero x = false) :
    ∃ slot' y, m.Stores j i slot' y ∧ Element.sameValue x y = true := by
  have hicol : i < d.cols := hmirror.cols_eq ▸ hi
  have hjcol : j < d.cols := hmirror.cols_eq ▸ hj
  obtain ⟨u, v, hu, hv, huv⟩ := hmirror.entry i hi j hj
  have hux : Element.sameValue u x = true := h.sameValue_stores hd hi hjcol hu hx
  -- the value, its cell and the cell across are all zero or none is
  have hvzero : Element.isZero v = false := by
    rw [← Element.isZero_eq_of_sameValue huv, Element.isZero_eq_of_sameValue hux]
    exact hnonzero
  obtain ⟨slot', y, hy⟩ := h.exists_stores hd hj hicol hv hvzero
  have hvy : Element.sameValue v y = true := h.sameValue_stores hd hj hicol hv hy
  exact ⟨slot', y, hy, Element.sameValue_trans (Element.sameValue_symm hux)
    (Element.sameValue_trans huv hvy)⟩

end Csr

/-- **Acceptance for the conjugate gradient method is a fact about the arrays.** Arrays that are
accepted are square of the order of the matrix, each of their rows stores its diagonal entry
exactly once and not as a zero, and with every nonzero that they store they store its mirror
image, which reproduces it. -/
theorem validate_conjugateGradient {α : Type} [Element α] [LawfulElement α] {d : Dense α}
    (hd : d.WellShaped) (m : Csr α) :
    ∃ report, validate d m .conjugateGradient = .ok report ∧ (report.isOk = true →
      ∃ n, (d.rows = n ∧ d.cols = n ∧ m.rows = n ∧ m.cols = n) ∧
        (∀ i < n, ∃ slot x, m.Stores i i slot x ∧ Element.isZero x = false ∧
          ∀ slot' y, m.Stores i i slot' y → slot' = slot) ∧
        ∀ i < n, ∀ j < n, ∀ slot x, m.Stores i j slot x → Element.isZero x = false →
          ∃ slot' y, m.Stores j i slot' y ∧ Element.sameValue x y = true) := by
  obtain ⟨decoding, diagonal, symmetry, hdecoding, hdiagonal, hsymmetry, hreport⟩ :=
    validate_eq_ok hd m .conjugateGradient
  refine ⟨_, hreport, fun hok => ?_⟩
  simp only [Report.isOk_iff, List.forall_mem_cons, Requirements.conjugateGradient,
    Status.ofAsked, if_true, Status.error?_ofResult] at hok
  obtain ⟨hlayout, rfl, rfl, rfl, -⟩ := hok
  have h : m.Represents d := (represents_iff hd).mp ⟨hlayout, hdecoding⟩
  have hmirror : d.Mirrored := hd.checkSymmetry_eq_ok_iff.mp hsymmetry
  have hsquare := hmirror.cols_eq
  refine ⟨d.rows, ⟨rfl, hsquare, h.rows_eq, h.cols_eq.trans hsquare⟩, fun i hi => ?_,
    fun i hi j hj slot x => h.stores_mirror hd hmirror hi hj⟩
  exact h.stores_diagonal hd hdiagonal (by omega)

/-- A NaN on the diagonal passes, and so does a stored zero whose mirror image is a negative zero
that is not stored. -/
theorem validate_conjugateGradient_nan :
    let two : Binary64 := ⟨0x4000000000000000⟩
    let d : Dense Binary64 := ⟨3, 3, #[.nan, two, ⟨0x8000000000000000⟩, two, two, 0, 0, 0, two]⟩
    let m : Csr Binary64 := ⟨3, 3, #[0, 2, 4, 6], #[0, 1, 0, 1, 0, 2],
      #[⟨0xfff8000000000001⟩, two, two, two, 0, two]⟩
    d.WellShaped ∧ (∃ report, validate d m .conjugateGradient = .ok report ∧
      report.isOk = true) ∧
      (∀ i < 3, ∃ slot x, m.Stores i i slot x ∧ Element.isZero x = false) ∧
      ∃ slot y, m.Stores 1 0 slot y ∧ Element.sameValue two y = true := by
  intro two d m
  have hd : d.WellShaped := ⟨rfl, by decide⟩
  have hpasses : (validate d m .conjugateGradient).map Report.isOk = .ok true := by
    decide +kernel
  obtain ⟨report, hreport, haccepted⟩ := validate_conjugateGradient hd m
  rw [hreport] at hpasses
  have hclean : report.isOk = true := Except.ok.inj hpasses
  obtain ⟨n, ⟨rfl, -⟩, hdiagonal, hmirror⟩ := haccepted hclean
  refine ⟨hd, ⟨report, hreport, hclean⟩, fun i hi => ?_, ?_⟩
  · obtain ⟨slot, x, hx, hnonzero, -⟩ := hdiagonal i hi
    exact ⟨slot, x, hx, hnonzero⟩
  · have hstored : m.Stores 0 1 1 two := ⟨⟨by decide, by decide⟩, by decide, by decide⟩
    exact hmirror 0 (by decide) 1 (by decide) 1 two hstored (by decide)

end SparseDatasets
