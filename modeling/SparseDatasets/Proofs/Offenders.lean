import SparseDatasets.Proofs.Symmetry
import SparseDatasets.Proofs.Totality

/-!
# What the checks of the source matrix report

The two checks of the source matrix stop at the first entry that is at fault and name
it. For the diagonal the first is the least index; for the symmetry it is the first
entry above the diagonal, row by row, and the entries to look at begin further right
in each row. That nothing else need be looked at is a fact about elements: reproducing
is symmetric, and every value reproduces itself, a NaN as well.

- `Dense.FirstZero`, `Dense.checkDiagonal_eq_error_iff`: the first zero of the diagonal.
- `Dense.FirstAsymmetry`, `Dense.checkSymmetry_eq_error_iff`: the first entry that is not mirrored.
- `Dense.checks_decide`: both checks decide their property and name the first entry at fault.
-/

namespace SparseDatasets

namespace Dense

variable {α : Type} [Element α] {d : Dense α}

/-! ## The diagonal -/

/-- The least index at which the diagonal has a zero. -/
structure FirstZero (d : Dense α) (i : Nat) : Prop where
  lt : i < min d.rows d.cols
  zero : ∃ x, d.get i i = .ok x ∧ Element.isZero x = true
  before : ∀ j < i, ∃ x, d.get j j = .ok x ∧ Element.isZero x = false

theorem zeroAt?_eq_some_iff {i j : Nat} :
    d.zeroAt? i = .ok (some j) ↔ i = j ∧ ∃ x, d.get i i = .ok x ∧ Element.isZero x = true := by
  rw [zeroAt?, bind_eq_ok]
  constructor
  · rintro ⟨x, hx, hfound⟩
    cases hzero : Element.isZero x <;> simp [hzero, pure_eq_ok] at hfound
    exact ⟨hfound, x, hx, hzero⟩
  · rintro ⟨rfl, x, hx, hzero⟩
    exact ⟨x, hx, by simp [hzero, pure_eq_ok]⟩

/-- The diagonal fails at its first zero. -/
theorem checkDiagonal_eq_error_iff {error : MatrixError} : d.checkDiagonal = .ok (.error error) ↔
    ∃ i, error = .singularDiagonal i ∧ d.FirstZero i := by
  have hsearch : ∀ i, searchFrom d.zeroAt? (min d.rows d.cols) 0 = .ok (some i) ↔
      d.FirstZero i := by
    intro i
    simp only [searchFrom_eq_some_iff, zeroAt?_eq_some_iff, zeroAt?_eq_none_iff, Nat.zero_le,
      Nat.zero_add, forall_true_left, true_and]
    constructor
    · rintro ⟨_, hlt, ⟨rfl, hzero⟩, hbefore⟩
      exact ⟨hlt, hzero, hbefore⟩
    · intro h
      exact ⟨i, h.lt, ⟨rfl, h.zero⟩, h.before⟩
  rw [checkDiagonal, bind_eq_ok]
  constructor
  · rintro ⟨r, hr, hfound⟩
    cases r with
    | none => cases hfound
    | some i =>
      cases hfound
      exact ⟨i, rfl, (hsearch i).mp hr⟩
  · rintro ⟨i, rfl, hfirst⟩
    exact ⟨some i, (hsearch i).mpr hfirst, rfl⟩

/-! ## The symmetry -/

/-- The first entry above the diagonal, row by row, that the one across from it does not
reproduce. -/
structure FirstAsymmetry (d : Dense α) (row col : Nat) : Prop where
  above : row < col
  col_lt : col < d.rows
  differs : ∃ x y, d.get row col = .ok x ∧ d.get col row = .ok y ∧ Element.sameValue x y = false
  before : ∀ i j, i < j → j < d.rows → i < row ∨ i = row ∧ j < col → d.MirrorsAt i j

theorem differsAt?_eq_some_iff {i j : Nat} {cell : Nat × Nat} :
    d.differsAt? i j = .ok (some cell) ↔ (i, j) = cell ∧
      ∃ x y, d.get i j = .ok x ∧ d.get j i = .ok y ∧ Element.sameValue x y = false := by
  simp only [differsAt?, bind_eq_ok, pure_eq_ok]
  constructor
  · rintro ⟨x, hx, y, hy, hfound⟩
    cases hsame : Element.sameValue x y <;> simp [hsame] at hfound
    exact ⟨hfound, x, y, hx, hy, hsame⟩
  · rintro ⟨rfl, x, y, hx, hy, hdiffers⟩
    exact ⟨x, hx, y, hy, by simp [hdiffers]⟩

/-- A search row by row finds the first entry that is not mirrored. -/
theorem searchFrom_differsAt?_eq_some_iff {row col : Nat} :
    searchFrom (fun i => searchFrom (d.differsAt? i) (d.rows - (i + 1)) (i + 1)) d.rows 0 =
      .ok (some (row, col)) ↔ d.FirstAsymmetry row col := by
  simp only [searchFrom_eq_some_iff, searchFrom_eq_none_iff, differsAt?_eq_some_iff,
    differsAt?_eq_none_iff]
  constructor
  · rintro ⟨_, -, -, ⟨_, hgt, hlt, ⟨heq, hdiffers⟩, hrow⟩, hrows⟩
    cases heq
    refine ⟨hgt, by omega, hdiffers, fun i j hij hj hbefore => ?_⟩
    -- an entry of an earlier row, or one further left in the same row
    rcases hbefore with hi | ⟨rfl, hjcol⟩
    · exact hrows i (Nat.zero_le i) hi j hij (by omega)
    · exact hrow j hij hjcol
  · intro h
    have habove := h.above
    have hlt := h.col_lt
    exact ⟨row, Nat.zero_le row, by omega,
      ⟨col, habove, by omega, ⟨rfl, h.differs⟩,
        fun j hj hjcol => h.before row j hj (by omega) (.inr ⟨rfl, hjcol⟩)⟩,
      fun i _ hi j hj hjlt => h.before i j hj (by omega) (.inl hi)⟩

/-- The symmetry fails at a matrix that is not square, and else at the first entry that is not
mirrored. -/
theorem checkSymmetry_eq_error_iff {error : MatrixError} : d.checkSymmetry = .ok (.error error) ↔
    d.cols ≠ d.rows ∧ error = .input (.notSquare d.rows d.cols) ∨
      d.cols = d.rows ∧ ∃ row col, error = .asymmetry row col ∧ d.FirstAsymmetry row col := by
  rw [checkSymmetry]
  by_cases hsquare : d.cols = d.rows
  · simp only [hsquare, ne_eq, not_true_eq_false, ↓reduceIte, false_and, true_and, false_or,
      bind_eq_ok]
    constructor
    · rintro ⟨r, hr, hfound⟩
      cases r with
      | none => cases hfound
      | some cell =>
        cases hfound
        exact ⟨cell.1, cell.2, rfl, searchFrom_differsAt?_eq_some_iff.mp hr⟩
    · rintro ⟨row, col, rfl, hfirst⟩
      exact ⟨some (row, col), searchFrom_differsAt?_eq_some_iff.mpr hfirst, rfl⟩
  · simp only [ne_eq, hsquare, not_false_eq_true, ↓reduceIte, false_and, true_and, or_false]
    constructor
    · intro h
      cases h
      rfl
    · rintro rfl
      rfl

/-- **The checks of the source matrix decide what they check and name the first entry at fault.**
No step of them goes wrong. The symmetry passes iff the matrix is square and every entry reproduces
the one across the diagonal, and the diagonal passes iff none of its entries is zero. -/
theorem checks_decide [LawfulElement α] (hd : d.WellShaped) (hrows : d.rows < wordLimit) :
    (∃ result, d.checkSymmetry = .ok result ∧
      Guarded.settle (Guarded.checkSymmetry d) = .ok result ∧
      (result = .ok () ↔ d.Mirrored) ∧
      ∀ error, result = .error error ↔
        d.cols ≠ d.rows ∧ error = .input (.notSquare d.rows d.cols) ∨
          d.cols = d.rows ∧ ∃ row col, error = .asymmetry row col ∧ d.FirstAsymmetry row col) ∧
    ∃ result, d.checkDiagonal = .ok result ∧
      Guarded.settle (Guarded.checkDiagonal d) = .ok result ∧
      (result = .ok () ↔
        ∀ i < min d.rows d.cols, ∃ x, d.get i i = .ok x ∧ Element.isZero x = false) ∧
      ∀ error, result = .error error ↔ ∃ i, error = .singularDiagonal i ∧ d.FirstZero i := by
  obtain ⟨symmetry, hsymmetry, hguardedSymmetry⟩ := Guarded.checkSymmetry_agrees hd hrows
  obtain ⟨diagonal, hdiagonal, hguardedDiagonal⟩ := Guarded.checkDiagonal_agrees hd
  refine ⟨⟨symmetry, hsymmetry, hguardedSymmetry.settle, ?_, fun error => ?_⟩,
    ⟨diagonal, hdiagonal, hguardedDiagonal.settle, ?_, fun error => ?_⟩⟩
  · rw [← hd.checkSymmetry_eq_ok_iff, hsymmetry, Except.ok.injEq]
  · rw [← checkSymmetry_eq_error_iff, hsymmetry, Except.ok.injEq]
  · rw [← checkDiagonal_eq_ok_iff, hdiagonal, Except.ok.injEq]
  · rw [← checkDiagonal_eq_error_iff, hdiagonal, Except.ok.injEq]

/-- A NaN mirrors another NaN and a zero a zero of the other sign, but two entries further down
differ, and the last entry of the diagonal is a negative zero. A wide matrix is not asked for its
entries, but its diagonal is. -/
theorem checks_decide_negative_zero :
    let one : Binary64 := ⟨0x3ff0000000000000⟩
    let negativeZero : Binary64 := ⟨0x8000000000000000⟩
    let d : Dense Binary64 := ⟨3, 3, #[.nan, ⟨0xfff8000000000001⟩, 0,
      ⟨0x7ff8000000000002⟩, one, one, negativeZero, 0, negativeZero]⟩
    let e : Dense Binary64 := ⟨1, 2, #[one, 0]⟩
    (d.WellShaped ∧ d.rows < wordLimit ∧ d.checkSymmetry = .ok (.error (.asymmetry 1 2)) ∧
      d.FirstAsymmetry 1 2 ∧ d.checkDiagonal = .ok (.error (.singularDiagonal 2)) ∧
      d.FirstZero 2) ∧
    e.WellShaped ∧ e.rows < wordLimit ∧
      e.checkSymmetry = .ok (.error (.input (.notSquare 1 2))) ∧ ¬ e.Mirrored ∧
      e.checkDiagonal = .ok (.ok ()) ∧
      ∀ i < min e.rows e.cols, ∃ x, e.get i i = .ok x ∧ Element.isZero x = false := by
  intro one negativeZero d e
  have hd : d.WellShaped := ⟨rfl, by decide⟩
  have he : e.WellShaped := ⟨rfl, by decide⟩
  have hdrows : d.rows < wordLimit := by decide
  have herows : e.rows < wordLimit := by decide
  have hdiffers : d.checkSymmetry = .ok (.error (.asymmetry 1 2)) := by decide +kernel
  have hzero : d.checkDiagonal = .ok (.error (.singularDiagonal 2)) := by decide +kernel
  have hwide : e.checkSymmetry = .ok (.error (.input (.notSquare 1 2))) := by decide +kernel
  have hnonzero : e.checkDiagonal = .ok (.ok ()) := by decide +kernel
  obtain ⟨⟨symmetry, hsymmetry, -, -, hfirst⟩, diagonal, hdiagonal, -, -, hleast⟩ :=
    checks_decide hd hdrows
  cases hdiffers.symm.trans hsymmetry
  cases hzero.symm.trans hdiagonal
  obtain ⟨⟨symmetry, hsymmetry, -, hmirrored, -⟩, diagonal, hdiagonal, -, hclean, -⟩ :=
    checks_decide he herows
  cases hwide.symm.trans hsymmetry
  cases hnonzero.symm.trans hdiagonal
  refine ⟨⟨hd, hdrows, hdiffers, ?_, hzero, ?_⟩, he, herows, hwide, ?_, hnonzero, hclean.mp rfl⟩
  · rcases (hfirst _).mp rfl with ⟨-, hnone⟩ | ⟨-, row, col, heq, hfirst⟩
    · cases hnone
    · cases heq
      exact hfirst
  · obtain ⟨i, heq, hleast⟩ := (hleast _).mp rfl
    cases heq
    exact hleast
  · intro h
    cases hmirrored.mpr h

end Dense

end SparseDatasets
