import Mathlib.Data.List.Sort
import SparseDatasets.Matrix.Dense

/-!
# Ascending offsets

The offset of a cell names its row and its column, and a list of offsets that
ascends is cut by every bound into the offsets below it and the ones from it on.
Counting the offsets below the start of a row therefore finds the place where
the row begins in the list, which is all that the row pointers of a compressed
matrix say.

- `coordinates_eq_flatMap`, `mem_coordinates`: the coordinates of a shape.
- `filter_lt_eq_take`, `filter_le_eq_drop`: the two parts of a cut.
- `filter_between_eq`, `filter_row_eq`: what lies between two bounds, or in a row.
- `filter_zip_row_eq`: the values of a row.
- `lt_countP_iff`: a place lies before the cut iff what stands there does.
- `Dense.mem_support`: the support of a matrix, by membership.
- `Dense.support_pairwise`: the support ascends.
-/

namespace SparseDatasets

/-! ## Rows and columns of an offset -/

theorem offset_div {cols col : Nat} (row : Nat) (h : col < cols) :
    (row * cols + col) / cols = row := by
  rw [Nat.mul_comm, Nat.mul_add_div (by omega), Nat.div_eq_of_lt h, Nat.add_zero]

theorem offset_mod {cols col : Nat} (row : Nat) (h : col < cols) :
    (row * cols + col) % cols = col := by
  rw [Nat.mul_comm, Nat.mul_add_mod, Nat.mod_eq_of_lt h]

/-- The offsets of a shape are those below its number of cells. -/
theorem offset_lt {rows cols row col : Nat} (hrow : row < rows) (hcol : col < cols) :
    row * cols + col < rows * cols := by
  calc row * cols + col < (row + 1) * cols := by rw [Nat.succ_mul]; omega
    _ ≤ rows * cols := Nat.mul_le_mul_right cols hrow

/-- Every offset of a shape is that of a cell. -/
theorem exists_offset {rows cols k : Nat} (h : k < rows * cols) :
    ∃ i < rows, ∃ j < cols, i * cols + j = k := by
  have hcols : 0 < cols := Nat.pos_of_mul_pos_left (Nat.zero_lt_of_lt h)
  exact ⟨k / cols, (Nat.div_lt_iff_lt_mul hcols).mpr h, k % cols, Nat.mod_lt k hcols,
    Nat.div_add_mod' k cols⟩

/-- Two cells of a shape lie at the same offset only if they are the same. -/
theorem offset_inj {cols row col i j : Nat} (hcol : col < cols) (hj : j < cols) :
    row * cols + col = i * cols + j ↔ row = i ∧ col = j := by
  constructor
  · intro h
    have hdiv := congrArg (· / cols) h
    have hmod := congrArg (· % cols) h
    simp only [offset_div _ hcol, offset_div _ hj, offset_mod _ hcol, offset_mod _ hj] at hdiv hmod
    exact ⟨hdiv, hmod⟩
  · rintro ⟨rfl, rfl⟩
    rfl

/-- An offset lies before a row iff its own row does. -/
theorem offset_lt_row_iff {cols row col r : Nat} (hcol : col < cols) :
    row * cols + col < r * cols ↔ row < r := by
  rw [← Nat.div_lt_iff_lt_mul (by omega), offset_div row hcol]

/-- The offsets of a row are those from its start up to the start of the next one. -/
theorem div_eq_row_iff {cols i r : Nat} (hcols : 0 < cols) :
    i / cols = r ↔ r * cols ≤ i ∧ i < (r + 1) * cols := by
  rw [← Nat.le_div_iff_mul_le hcols, ← Nat.div_lt_iff_lt_mul hcols]
  omega

/-- An offset as it is computed on words, in a shape whose cells a word can count. -/
theorem Dense.offset_eq {rows cols row col : Nat} (hrow : row < rows) (hcol : col < cols)
    (hword : rows * cols < wordLimit) : Dense.offset cols row col = row * cols + col :=
  Nat.mod_eq_of_lt (Nat.lt_trans (offset_lt hrow hcol) hword)

/-! ## The coordinates of a shape -/

theorem coordinates_eq_flatMap (rows cols : Nat) : coordinates rows cols =
    (List.range rows).flatMap fun i => (List.range cols).map fun j => (i, j) := by
  induction rows with
  | zero => rw [coordinates, Nat.zero_mul, List.range_zero, List.map_nil, List.flatMap_nil]
  | succ rows ih =>
    rw [List.range_succ, List.flatMap_append, ← ih, coordinates, Nat.succ_mul, List.range_add,
      List.map_append, List.map_map, List.flatMap_singleton, ← coordinates]
    congr 1
    refine List.map_congr_left fun j hj => ?_
    have hlt : j < cols := List.mem_range.mp hj
    rw [Function.comp_apply, offset_div rows hlt, offset_mod rows hlt]

theorem mem_coordinates {rows cols i j : Nat} :
    (i, j) ∈ coordinates rows cols ↔ i < rows ∧ j < cols := by
  simp [coordinates_eq_flatMap]

/-! ## Cutting an ascending list -/

section Cut

variable {β : Type} (key : β → Nat) {l : List β}

/-- No element is below a bound that the first one reaches. -/
theorem countP_lt_eq_zero {x : β} (h : (x :: l).Pairwise fun a b => key a < key b) {b : Nat}
    (hx : b ≤ key x) : (x :: l).countP (fun y => key y < b) = 0 := by
  refine List.countP_eq_zero.mpr fun y hy => ?_
  rcases List.mem_cons.mp hy with rfl | hy
  · simpa using hx
  · have := List.rel_of_pairwise_cons h hy
    simp only [decide_eq_true_eq]
    omega

/-- The elements below a bound stand at the front. -/
theorem filter_lt_eq_take (h : l.Pairwise fun a b => key a < key b) (b : Nat) :
    l.filter (fun x => key x < b) = l.take (l.countP fun x => key x < b) := by
  induction l with
  | nil => rfl
  | cons x l ih =>
    by_cases hx : key x < b
    · rw [List.filter_cons_of_pos (by simpa using hx),
        List.countP_cons_of_pos (by simpa using hx), List.take_succ_cons,
        ih (List.pairwise_cons.mp h).2]
    · -- from here on nothing is below the bound
      have hzero := countP_lt_eq_zero key h (Nat.le_of_not_lt hx)
      rw [hzero, List.take_zero, List.filter_eq_nil_iff]
      exact List.countP_eq_zero.mp hzero

/-- The elements from a bound on stand at the back. -/
theorem filter_le_eq_drop (h : l.Pairwise fun a b => key a < key b) (b : Nat) :
    l.filter (fun x => b ≤ key x) = l.drop (l.countP fun x => key x < b) := by
  induction l with
  | nil => rfl
  | cons x l ih =>
    by_cases hx : key x < b
    · rw [List.filter_cons_of_neg (by simpa using hx),
        List.countP_cons_of_pos (by simpa using hx), List.drop_succ_cons,
        ih (List.pairwise_cons.mp h).2]
    · have hzero := countP_lt_eq_zero key h (Nat.le_of_not_lt hx)
      rw [hzero, List.drop_zero, List.filter_eq_self]
      intro y hy
      simpa using List.countP_eq_zero.mp hzero y hy

/-- A place lies before the cut iff the element that stands there is below the bound. -/
theorem lt_countP_iff (h : l.Pairwise fun a b => key a < key b) (b : Nat) {k : Nat}
    (hk : k < l.length) : k < l.countP (fun x => key x < b) ↔ key l[k] < b := by
  induction l generalizing k with
  | nil => simp at hk
  | cons x l ih =>
    by_cases hx : key x < b
    · rw [List.countP_cons_of_pos (by simpa using hx)]
      cases k with
      | zero => simpa using hx
      | succ k =>
        have hrest := ih (List.pairwise_cons.mp h).2 (Nat.lt_of_succ_lt_succ hk)
        simpa using hrest
    · have hzero := countP_lt_eq_zero key h (Nat.le_of_not_lt hx)
      have hall := List.countP_eq_zero.mp hzero _ (List.getElem_mem hk)
      rw [hzero]
      simpa using hall

/-- The elements between two bounds stand together. -/
theorem filter_between_eq (h : l.Pairwise fun a b => key a < key b) {a b : Nat} (hab : a ≤ b) :
    l.filter (fun x => a ≤ key x ∧ key x < b) =
      (l.take (l.countP fun x => key x < b)).drop (l.countP fun x => key x < a) := by
  have hcount : (l.filter fun x => key x < b).countP (fun x => key x < a) =
      l.countP fun x => key x < a := by
    rw [List.countP_filter]
    refine List.countP_congr fun x _ => ?_
    simp only [Bool.and_eq_true, decide_eq_true_eq]
    omega
  -- what is below the upper bound still ascends, and the lower bound cuts it at the same place
  rw [← filter_lt_eq_take key h b, ← hcount, ← filter_le_eq_drop key (h.filter _) a,
    List.filter_filter]
  refine List.filter_congr fun x _ => ?_
  simp

/-- The elements of one row stand together. -/
theorem filter_row_eq (h : l.Pairwise fun a b => key a < key b) {cols : Nat} (hcols : 0 < cols)
    (r : Nat) :
    l.filter (fun x => key x / cols = r) =
      (l.take (l.countP fun x => key x < (r + 1) * cols)).drop
        (l.countP fun x => key x < r * cols) := by
  have hbounds : r * cols ≤ (r + 1) * cols := Nat.mul_le_mul_right _ (by omega)
  simp only [div_eq_row_iff hcols]
  exact filter_between_eq key h hbounds

end Cut

/-- The values at the offsets of one row stand together as the offsets do. -/
theorem filter_zip_row_eq {α : Type} {positions : List Nat} {values : List α}
    (hasc : positions.Pairwise (· < ·)) (hlength : values.length = positions.length) {cols : Nat}
    (hcols : 0 < cols) (r : Nat) :
    ((positions.zip values).filter fun cell => cell.1 / cols = r).map (·.2) =
      (values.take (positions.countP (· < (r + 1) * cols))).drop
        (positions.countP (· < r * cols)) := by
  have hfst : (positions.zip values).map Prod.fst = positions :=
    List.map_fst_zip (Nat.le_of_eq hlength.symm)
  have hsnd : (positions.zip values).map Prod.snd = values :=
    List.map_snd_zip (Nat.le_of_eq hlength)
  have hpairs : (positions.zip values).Pairwise fun a b => a.1 < b.1 := by
    rw [← List.pairwise_map (f := Prod.fst) (R := (· < ·)), hfst]
    exact hasc
  have hcount : ∀ b, (positions.zip values).countP (fun cell => cell.1 < b) =
      positions.countP (· < b) := by
    intro b
    conv_rhs => rw [← hfst, List.countP_map]
    rfl
  have hspan := filter_row_eq Prod.fst hpairs hcols r
  simp only [hcount] at hspan
  rw [hspan, List.map_drop, List.map_take, hsnd]

/-! ## The support of a matrix -/

namespace Dense

variable {α : Type} [Element α]

theorem support_toList (d : Dense α) :
    d.support.positions.toList =
      (d.cells.toList.zipIdx.filter fun cell => !Element.isZero cell.1).map (·.2) := by
  simp [support]

/-- The support holds the offsets of the nonzero cells and nothing else. -/
theorem mem_support {d : Dense α} {k : Nat} :
    k ∈ d.support.positions.toList ↔ ∃ x, d.cells[k]? = some x ∧ Element.isZero x = false := by
  rw [support_toList]
  constructor
  · intro h
    obtain ⟨⟨x, j⟩, hcell, rfl⟩ := List.mem_map.mp h
    obtain ⟨hmem, hx⟩ := List.mem_filter.mp hcell
    exact ⟨x, by simpa [List.mk_mem_zipIdx_iff_getElem?] using hmem, by simpa using hx⟩
  · rintro ⟨x, hget, hx⟩
    refine List.mem_map.mpr ⟨(x, k), List.mem_filter.mpr ⟨?_, by simpa using hx⟩, rfl⟩
    simpa [List.mk_mem_zipIdx_iff_getElem?] using hget

theorem lt_of_mem_support {d : Dense α} {k : Nat} (h : k ∈ d.support.positions.toList) :
    k < d.cells.size := by
  obtain ⟨x, hx, -⟩ := mem_support.mp h
  exact (Array.getElem?_eq_some_iff.mp hx).1

/-- The support ascends. -/
theorem support_pairwise (d : Dense α) : d.support.positions.toList.Pairwise (· < ·) := by
  rw [support_toList]
  refine List.Pairwise.map _ (fun _ _ h => h) (List.Pairwise.filter _ ?_)
  rw [← List.pairwise_map (f := Prod.snd) (R := (· < ·)), List.zipIdx_map_snd]
  exact List.pairwise_lt_range'

/-- The support has as many offsets as the matrix has nonzero cells. -/
theorem support_length (d : Dense α) : d.support.positions.toList.length = d.nnz := by
  rw [support_toList, List.length_map, ← List.countP_eq_length_filter, nnz,
    ← Array.countP_toList]
  conv_rhs => rw [← List.zipIdx_map_fst 0 d.cells.toList, List.countP_map]
  rfl

end Dense

end SparseDatasets
