import SparseDatasets.Proofs.Construction
import SparseDatasets.Proofs.Mirroring
import SparseDatasets.Proofs.Totality

/-!
# Matrices from lists of rows

A matrix can be made of a list of rows, of all its cells, or of a function of the coordinates. Rows
that are equally long and laid end to end have the entry of row `i` and column `j` at the place
`i * cols + j`, which is where the matrix looks for the cell, so the three ways of making it agree.
No two cells of a shape lie at the same place, so writing one of them leaves the others alone. On
words this holds as long as a word can number the cells; a guard at each product and sum asks for
nothing more than that the place of the cell fits.

- `Dense.Rectangular`, `Dense.RowsDefect`: rows that make a matrix, and what is wrong with others.
- `Dense.ofRows_eq_ok_iff`, `Dense.ofRows_eq_error_iff`: what becomes of a list of rows.
- `Dense.Rectangular.getElem?_endToEnd`: where the entries of the rows stand.
- `Dense.ofFnM_run`: the calls that are made for a matrix.
- `Dense.get_set`, `Guarded.get_set`: the cells after one of them is written.
- `Dense.constructors_agree`: **the constructors make the same matrix.**
-/

namespace SparseDatasets

namespace Dense

variable {α : Type} {rows : List (Array α)}

/-! ## Lists of rows -/

/-- The number of entries of the first row. -/
def firstWidth (rows : List (Array α)) : Nat := (rows.head?.map Array.size).getD 0

/-- The entry of the rows at a coordinate. -/
def entryAt? (rows : List (Array α)) (i j : Nat) : Option α := rows[i]?.bind (·[j]?)

/-- The entries of the rows, one row after the other. -/
def endToEnd (rows : List (Array α)) : Array α := (rows.map Array.toList).flatten.toArray

/-- There is a row, the first one is not empty, and all of them are as long. -/
structure Rectangular (rows : List (Array α)) : Prop where
  nonempty : rows ≠ []
  width_pos : 0 < firstWidth rows
  size_eq : ∀ row ∈ rows, row.size = firstWidth rows

/-- What is wrong with a list of rows: it has no cells, or else there is a first row that is not as
long as the rows before it. -/
inductive RowsDefect (rows : List (Array α)) : InputDefect → Prop
  | empty (hempty : rows.length = 0 ∨ firstWidth rows = 0) :
    RowsDefect rows (.emptyDimension rows.length (firstWidth rows))
  | ragged {before after : List (Array α)} {row : Array α} (hrows : 0 < rows.length)
    (hwidth : 0 < firstWidth rows) (hsplit : rows = before ++ row :: after)
    (hbefore : ∀ r ∈ before, r.size = firstWidth rows) (hrow : row.size ≠ firstWidth rows) :
    RowsDefect rows (.lengthMismatch (firstWidth rows) row.size)

/-! ## What becomes of them -/

/-- The rows are taken, or the first one that is not as long as the first row is named. -/
theorem ofRows_eq_elim (rows : List (Array α)) :
    ofRows rows = if rows = [] ∨ firstWidth rows = 0 then
        .error (.emptyDimension rows.length (firstWidth rows))
      else (rows.find? fun row => row.size ≠ firstWidth rows).elim
        (.ok ⟨rows.length, firstWidth rows, endToEnd rows⟩) fun row =>
          .error (.lengthMismatch (firstWidth rows) row.size) := by
  unfold ofRows
  refine if_congr Iff.rfl rfl ?_
  rw [← firstWidth]
  cases rows.find? fun row => row.size ≠ firstWidth rows <;> rfl

theorem Rectangular.ofRows_eq (h : Rectangular rows) :
    ofRows rows = .ok ⟨rows.length, firstWidth rows, endToEnd rows⟩ := by
  have hfind : rows.find? (fun row => row.size ≠ firstWidth rows) = none :=
    List.find?_eq_none.mpr fun row hrow => by simp [h.size_eq row hrow]
  rw [ofRows_eq_elim, if_neg (not_or.mpr ⟨h.nonempty, h.width_pos.ne'⟩), hfind]
  rfl

theorem RowsDefect.ofRows_eq {defect : InputDefect} (h : RowsDefect rows defect) :
    ofRows rows = .error defect := by
  rw [ofRows_eq_elim]
  cases h with
  | empty hempty => rw [if_pos (hempty.imp_left List.length_eq_zero_iff.mp)]
  | @ragged before after row hrows hwidth hsplit hbefore hrow =>
    have hfind : rows.find? (fun row => row.size ≠ firstWidth rows) = some row := by
      rw [List.find?_eq_some_iff_append]
      exact ⟨by simpa using hrow, before, after, hsplit, fun r hr => by simp [hbefore r hr]⟩
    rw [if_neg (not_or.mpr ⟨List.ne_nil_of_length_pos hrows, hwidth.ne'⟩), hfind]
    rfl

theorem rectangular_or_defect (rows : List (Array α)) :
    Rectangular rows ∨ ∃ defect, RowsDefect rows defect := by
  by_cases hempty : rows.length = 0 ∨ firstWidth rows = 0
  · exact .inr ⟨_, .empty hempty⟩
  obtain ⟨hrows, hwidth⟩ := not_or.mp hempty
  by_cases hsame : ∀ row ∈ rows, row.size = firstWidth rows
  · exact .inl ⟨fun h => hrows (by rw [h]; rfl), Nat.pos_of_ne_zero hwidth, hsame⟩
  · obtain ⟨row, hfind⟩ : ∃ row, rows.find? (fun row => row.size ≠ firstWidth rows) = some row := by
      rw [← Option.isSome_iff_exists, List.find?_isSome]
      simpa using hsame
    obtain ⟨hrow, before, after, hsplit, hbefore⟩ := List.find?_eq_some_iff_append.mp hfind
    exact .inr ⟨_, .ragged (Nat.pos_of_ne_zero hrows) (Nat.pos_of_ne_zero hwidth) hsplit
      (fun r hr => by simpa using hbefore r hr) (by simpa using hrow)⟩

theorem ofRows_eq_ok_iff {d : Dense α} : ofRows rows = .ok d ↔
    Rectangular rows ∧ d = ⟨rows.length, firstWidth rows, endToEnd rows⟩ := by
  rcases rectangular_or_defect rows with h | ⟨defect, h⟩
  · rw [h.ofRows_eq, Except.ok.injEq, eq_comm]
    exact (and_iff_right h).symm
  · constructor
    · intro hok
      cases h.ofRows_eq.symm.trans hok
    · rintro ⟨hrect, -⟩
      cases h.ofRows_eq.symm.trans hrect.ofRows_eq

theorem ofRows_eq_error_iff {defect : InputDefect} :
    ofRows rows = .error defect ↔ RowsDefect rows defect := by
  refine ⟨fun herror => ?_, RowsDefect.ofRows_eq⟩
  rcases rectangular_or_defect rows with h | ⟨other, h⟩
  · cases h.ofRows_eq.symm.trans herror
  · cases h.ofRows_eq.symm.trans herror
    exact h

/-- Lists of one length, one after the other, cut the places of their entries into rows. -/
theorem getElem?_flatten {lists : List (List α)} {cols : Nat}
    (h : ∀ l ∈ lists, l.length = cols) (i : Nat) {j : Nat} (hj : j < cols) :
    lists.flatten[i * cols + j]? = lists[i]?.bind (·[j]?) := by
  induction lists generalizing i with
  | nil => rfl
  | cons l lists ih =>
    have hl : l.length = cols := h l List.mem_cons_self
    rw [List.flatten_cons]
    cases i with
    | zero => rw [List.getElem?_append_left (by omega), Nat.zero_mul, Nat.zero_add]; rfl
    | succ i =>
      have hskip : (i + 1) * cols + j - l.length = i * cols + j := by
        rw [hl, Nat.succ_mul]
        omega
      rw [List.getElem?_append_right (by rw [hl, Nat.succ_mul]; omega), hskip,
        ih fun l hl => h l (List.mem_cons_of_mem _ hl)]
      rfl

namespace Rectangular

theorem getElem?_endToEnd (h : Rectangular rows) (i : Nat) {j : Nat} (hj : j < firstWidth rows) :
    (endToEnd rows)[i * firstWidth rows + j]? = entryAt? rows i j := by
  have hlengths : ∀ l ∈ rows.map Array.toList, l.length = firstWidth rows := by
    intro l hl
    obtain ⟨row, hrow, rfl⟩ := List.mem_map.mp hl
    exact h.size_eq row hrow
  rw [endToEnd, List.getElem?_toArray, getElem?_flatten hlengths i hj, entryAt?, List.getElem?_map]
  cases rows[i]? <;> simp

theorem exists_entryAt (h : Rectangular rows) {i j : Nat} (hi : i < rows.length)
    (hj : j < firstWidth rows) : ∃ x, entryAt? rows i j = some x := by
  have hsize : (rows[i]).size = firstWidth rows := h.size_eq _ (List.getElem_mem hi)
  have hcol : j < (rows[i]).size := hsize ▸ hj
  refine ⟨(rows[i])[j], ?_⟩
  rw [entryAt?, List.getElem?_eq_getElem hi]
  simp

theorem size_endToEnd (h : Rectangular rows) :
    (endToEnd rows).size = rows.length * firstWidth rows :=
  ofRows_size h.ofRows_eq

/-- The shape and the number of cells that are handed over fit. -/
theorem ofCells_eq (h : Rectangular rows) (hword : (endToEnd rows).size < wordLimit) :
    ofCells rows.length (firstWidth rows) (endToEnd rows) =
      .ok ⟨rows.length, firstWidth rows, endToEnd rows⟩ := by
  have hsize := h.size_endToEnd
  have hrows := List.length_pos_iff.mpr h.nonempty
  have hwidth := h.width_pos
  rw [ofCells, if_neg (by omega), if_neg (by omega), if_neg (by omega)]

/-- A function that gives the entries of the rows makes their matrix. -/
theorem ofFn_eq (h : Rectangular rows) {value : Nat → Nat → α}
    (hvalue : ∀ i < rows.length, ∀ j < firstWidth rows, entryAt? rows i j = some (value i j)) :
    ofFn rows.length (firstWidth rows) value = ⟨rows.length, firstWidth rows, endToEnd rows⟩ := by
  have hcells : ((coordinates rows.length (firstWidth rows)).map fun c => value c.1 c.2).toArray =
      endToEnd rows := by
    refine Array.ext_getElem? fun k => ?_
    by_cases hk : k < rows.length * firstWidth rows
    · obtain ⟨i, hi, j, hj, rfl⟩ := exists_offset hk
      rw [h.getElem?_endToEnd i hj, hvalue i hi j hj]
      simp [coordinates, hk, offset_div i hj, offset_mod i hj]
    · have hsize := h.size_endToEnd
      rw [Array.getElem?_eq_none (by simpa [coordinates] using hk),
        Array.getElem?_eq_none (by omega)]
  exact congrArg (Dense.mk _ _) hcells

end Rectangular

/-! ## Functions of the coordinates -/

theorem coordinates_pairwise (rows cols : Nat) : (coordinates rows cols).Pairwise RowMajor := by
  rw [coordinates_eq_flatMap]
  exact pairwise_rowMajor fun _ => List.pairwise_lt_range

/-- One call is made for each cell, row by row, and its result is the value of the cell. -/
theorem ofFnM_run [Element α] {τ : Type} (height width : Nat) (f : Nat → Nat → StateM τ α) (s : τ) :
    ∃ (value : Nat → Nat → α) (s' : τ),
      (ofFnM height width f).run s = (ofFn height width value, s') ∧
      Calls f s ((coordinates height width).map fun c => (c, value c.1 c.2)) s' := by
  obtain ⟨value, s', hrun, hcalls⟩ :=
    exists_calls f (nodup_of_rowMajor (coordinates_pairwise height width)) s
  refine ⟨fun i j => value (i, j), s', ?_, hcalls⟩
  unfold ofFnM
  rw [StateT.run_bind, hrun]
  rfl

/-- So does a computation, whatever else it does. -/
theorem Rectangular.ofFnM_run_eq [Element α] (h : Rectangular rows) {τ : Type}
    {f : Nat → Nat → StateM τ α}
    (hf : ∀ i j x, entryAt? rows i j = some x → ∀ s, ((f i j).run s).1 = x) (s : τ) :
    ∃ s', (ofFnM rows.length (firstWidth rows) f).run s =
      (⟨rows.length, firstWidth rows, endToEnd rows⟩, s') := by
  obtain ⟨value, s', hrun, hcalls⟩ := ofFnM_run rows.length (firstWidth rows) f s
  refine ⟨s', ?_⟩
  rw [hrun, h.ofFn_eq fun i hi j hj => ?_]
  obtain ⟨x, hx⟩ := h.exists_entryAt hi hj
  obtain ⟨t, ht⟩ := hcalls.exists_run_eq
    (List.mem_map.mpr ⟨(i, j), mem_coordinates.mpr ⟨hi, hj⟩, rfl⟩)
  rw [hx, ← ht, hf i j x hx t]

/-! ## Writing a cell -/

/-- Only the cell that is written changes. -/
theorem getElem?_set_offset {cells : Array α} {cols i j k l : Nat} (hj : j < cols) (hl : l < cols)
    (hplace : i * cols + j < cells.size) (x : α) :
    (cells.set (i * cols + j) x hplace)[k * cols + l]? =
      if k = i ∧ l = j then some x else cells[k * cols + l]? := by
  rw [Array.getElem?_set, if_congr (offset_inj hj hl) rfl rfl,
    if_congr (and_congr eq_comm eq_comm) rfl rfl]

theorem set_eq_ok_iff {d d' : Dense α} {i j : Nat} {x : α} : d.set i j x = .ok d' ↔
    (i < d.rows ∧ j < d.cols) ∧ ∃ h : offset d.cols i j < d.cells.size,
      d' = { d with cells := d.cells.set (offset d.cols i j) x h } := by
  unfold Dense.set writeCell
  by_cases hin : i < d.rows ∧ j < d.cols
  · by_cases hplace : offset d.cols i j < d.cells.size <;> simp [hin, hplace, eq_comm]
  · simp [hin]

/-- A cell that is written holds the new value, and the others what they held, if a word can number
the cells. -/
theorem get_set {d d' : Dense α} {i j : Nat} {x : α} (hword : d.rows * d.cols ≤ wordLimit)
    (h : d.set i j x = .ok d') (k l : Nat) :
    d'.get k l = if k = i ∧ l = j then .ok x else d.get k l := by
  have hoffset : ∀ {k l}, k < d.rows → l < d.cols → offset d.cols k l = k * d.cols + l :=
    fun hk hl => Nat.mod_eq_of_lt (Nat.lt_of_lt_of_le (offset_lt hk hl) hword)
  obtain ⟨⟨hi, hj⟩, hplace, rfl⟩ := set_eq_ok_iff.mp h
  by_cases hin : k < d.rows ∧ l < d.cols
  · simp only [get, if_pos hin, hoffset hi hj, hoffset hin.1 hin.2]
    rw [getElem?_set_offset hj hin.2]
    by_cases hsame : k = i ∧ l = j
    · rw [if_pos hsame, if_pos hsame]
    · rw [if_neg hsame, if_neg hsame]
  · have hother : ¬ (k = i ∧ l = j) := by
      rintro ⟨rfl, rfl⟩
      exact hin ⟨hi, hj⟩
    simp only [get, if_neg hin, if_neg hother]

theorem WellShaped.exists_set {d : Dense α} (h : d.WellShaped) {i j : Nat} (hi : i < d.rows)
    (hj : j < d.cols) (x : α) : ∃ d', d.set i j x = .ok d' ∧ d'.WellShaped := by
  have hplace : offset d.cols i j < d.cells.size := by
    rw [offset_eq hi hj h.word, h.size_eq]
    exact offset_lt hi hj
  refine ⟨_, set_eq_ok_iff.mpr ⟨⟨hi, hj⟩, hplace, rfl⟩, ?_, ?_⟩
  · rw [Array.size_set]
    exact h.size_eq
  · rw [Array.size_set]
    exact h.size_lt

end Dense

namespace Guarded

variable {α δ : Type}

/-- Overwrites a cell. -/
def set (d : Dense α) (row col : Nat) (x : α) : Guarded δ (Dense α) :=
  if row < d.rows ∧ col < d.cols then do
    fits (row * d.cols)
    fits (row * d.cols + col)
    let cells ← write d.cells (row * d.cols + col) x
    return { d with cells }
  else .error (.fault (.cell row col))

theorem fits_eq_ok_iff {n : Nat} : (fits n : Guarded δ Unit) = .ok () ↔ n < wordLimit := by
  unfold fits
  split <;> simp [*]

theorem set_eq_ok_iff {d d' : Dense α} {i j : Nat} {x : α} :
    (set d i j x : Guarded δ (Dense α)) = .ok d' ↔
      (i < d.rows ∧ j < d.cols) ∧ i * d.cols + j < wordLimit ∧
        ∃ h : i * d.cols + j < d.cells.size,
          d' = { d with cells := d.cells.set (i * d.cols + j) x h } := by
  constructor
  · intro h
    unfold set at h
    split at h
    · rename_i hin
      obtain ⟨⟨⟩, -, h⟩ := bind_eq_ok.mp h
      obtain ⟨⟨⟩, hword, h⟩ := bind_eq_ok.mp h
      obtain ⟨cells, hwrite, h⟩ := bind_eq_ok.mp h
      unfold write at hwrite
      split at hwrite
      · cases hwrite
        cases h
        exact ⟨hin, fits_eq_ok_iff.mp hword, _, rfl⟩
      · cases hwrite
    · cases h
  · rintro ⟨hin, hword, hplace, rfl⟩
    have hrow : i * d.cols < wordLimit := by omega
    rw [set, if_pos hin, fits_eq hrow, ok_bind, fits_eq hword, ok_bind, write_eq hplace]
    rfl

/-- With a guard at each step there is nothing to ask of the matrix. -/
theorem get_set {d d' : Dense α} {i j : Nat} {x : α}
    (h : (set d i j x : Guarded δ (Dense α)) = .ok d') (k l : Nat) :
    (get d' k l : Guarded δ α) = if k = i ∧ l = j then .ok x else get d k l := by
  obtain ⟨⟨hi, hj⟩, hword, hplace, rfl⟩ := set_eq_ok_iff.mp h
  by_cases hsame : k = i ∧ l = j
  · obtain ⟨rfl, rfl⟩ := hsame
    have hrow : k * d.cols < wordLimit := by omega
    have hcell : (d.cells.set (k * d.cols + l) x hplace)[k * d.cols + l]? = some x := by simp
    rw [if_pos ⟨rfl, rfl⟩, get, if_pos ⟨hi, hj⟩, fits_eq hrow, ok_bind, fits_eq hword, ok_bind,
      read_eq hcell]
  · rw [if_neg hsame]
    unfold get
    by_cases hin : k < d.rows ∧ l < d.cols
    · have hread : (read (d.cells.set (i * d.cols + j) x hplace) (k * d.cols + l) : Guarded δ α) =
          read d.cells (k * d.cols + l) := by
        rw [read, Dense.getElem?_set_offset hj hin.2, if_neg hsame, Array.size_set, read]
      simp only [if_pos hin, hread]
    · simp only [if_neg hin]

theorem set_eq {d d' : Dense α} {i j : Nat} {x : α} (hword : d.rows * d.cols ≤ wordLimit)
    (h : d.set i j x = .ok d') : (set d i j x : Guarded δ (Dense α)) = .ok d' := by
  obtain ⟨⟨hi, hj⟩, hplace, rfl⟩ := Dense.set_eq_ok_iff.mp h
  have hlt : i * d.cols + j < wordLimit := Nat.lt_of_lt_of_le (offset_lt hi hj) hword
  have hoffset : Dense.offset d.cols i j = i * d.cols + j := Nat.mod_eq_of_lt hlt
  simp only [hoffset] at hplace ⊢
  exact set_eq_ok_iff.mpr ⟨⟨hi, hj⟩, hlt, hplace, rfl⟩

end Guarded

/-! ## Agreement -/

/-- **The constructors make the same matrix.** Rows make a matrix iff there is one, it is not empty
and the others are as long; other rows are refused with the figures of what is wrong with them. The
matrix of the rows is that of any computation that gives their entries, whatever else it does, and
it is that of the cells of the rows laid end to end; inside it holds the entries of the rows. A
computation is run once for each cell, row by row. Writing a cell of a matrix that holds all its
cells never fails; on words that can number the cells of the shape, and on any matrix if there is a
guard at each step, it leaves all other cells as they were. -/
theorem Dense.constructors_agree {α : Type} [Element α] (rows : List (Array α)) :
    ((∃ d, ofRows rows = .ok d) ↔ Rectangular rows) ∧
    (∀ defect, ofRows rows = .error defect ↔ RowsDefect rows defect) ∧
    (∀ d, ofRows rows = .ok d →
      (∀ (τ : Type) (f : Nat → Nat → StateM τ α),
        (∀ i j x, entryAt? rows i j = some x → ∀ s, ((f i j).run s).1 = x) →
        ∀ s, ∃ s', (ofFnM rows.length (firstWidth rows) f).run s = (d, s')) ∧
      ((endToEnd rows).size < wordLimit →
        ofCells rows.length (firstWidth rows) (endToEnd rows) = .ok d ∧ d.WellShaped ∧
        ∀ i < rows.length, ∀ j < firstWidth rows,
          ∃ x, entryAt? rows i j = some x ∧ d.get i j = .ok x)) ∧
    (∀ (τ : Type) (height width : Nat) (f : Nat → Nat → StateM τ α) (s : τ),
      ∃ (value : Nat → Nat → α) (s' : τ),
        (ofFnM height width f).run s = (ofFn height width value, s') ∧
        Calls f s ((coordinates height width).map fun c => (c, value c.1 c.2)) s' ∧
        (coordinates height width).Pairwise RowMajor ∧
        ∀ i j, (i, j) ∈ coordinates height width ↔ i < height ∧ j < width) ∧
    ∀ (d : Dense α) (i j : Nat) (x : α),
      (d.WellShaped → i < d.rows → j < d.cols → ∃ d', d.set i j x = .ok d' ∧ d'.WellShaped ∧
        (Guarded.set d i j x : Guarded Empty (Dense α)) = .ok d') ∧
      (∀ d', d.set i j x = .ok d' → d.rows * d.cols ≤ wordLimit → ∀ k l,
        d'.get k l = if k = i ∧ l = j then .ok x else d.get k l) ∧
      ∀ d', (Guarded.set d i j x : Guarded Empty (Dense α)) = .ok d' → ∀ k l,
        (Guarded.get d' k l : Guarded Empty α) =
          if k = i ∧ l = j then .ok x else Guarded.get d k l := by
  refine ⟨?_, fun defect => ofRows_eq_error_iff, fun d hd => ?_, fun τ height width f s => ?_,
    fun d i j x => ⟨fun h hi hj => ?_, fun d' hset hword => get_set hword hset,
      fun d' hset => Guarded.get_set hset⟩⟩
  · exact ⟨fun ⟨d, hd⟩ => (ofRows_eq_ok_iff.mp hd).1, fun h => ⟨_, h.ofRows_eq⟩⟩
  · obtain ⟨h, rfl⟩ := ofRows_eq_ok_iff.mp hd
    have hsize := h.size_endToEnd
    refine ⟨fun τ f hf => h.ofFnM_run_eq hf, fun hword => ?_⟩
    have hshaped : WellShaped ⟨rows.length, firstWidth rows, endToEnd rows⟩ := ⟨hsize, hword⟩
    refine ⟨h.ofCells_eq hword, hshaped, fun i hi j hj => ?_⟩
    obtain ⟨x, hx⟩ := h.exists_entryAt hi hj
    exact ⟨x, hx, (hshaped.get_eq_ok_iff hi hj).mpr ((h.getElem?_endToEnd i hj).trans hx)⟩
  · obtain ⟨value, s', hrun, hcalls⟩ := ofFnM_run height width f s
    exact ⟨value, s', hrun, hcalls, coordinates_pairwise height width, fun i j => mem_coordinates⟩
  · obtain ⟨d', hset, hd'⟩ := h.exists_set hi hj x
    exact ⟨d', hset, hd', Guarded.set_eq h.word.le hset⟩

/-- Two rows of three, read by a computation that keeps a list of its calls, and written in the
second row; and three rows of which the second is the first to differ. -/
theorem Dense.constructors_agree_two_rows :
    let rows : List (Array Int32) := [#[1, 2, 3], #[4, 5, 6]]
    let d : Dense Int32 := ⟨2, 3, #[1, 2, 3, 4, 5, 6]⟩
    let f : Nat → Nat → StateM (List (Nat × Nat)) Int32 := fun i j calls =>
      ((entryAt? rows i j).getD 0, calls ++ [(i, j)])
    ofRows rows = .ok d ∧ (∀ i j x, entryAt? rows i j = some x → ∀ s, ((f i j).run s).1 = x) ∧
      (endToEnd rows).size < wordLimit ∧ ofCells 2 3 #[1, 2, 3, 4, 5, 6] = .ok d ∧
      (ofFnM 2 3 f).run [] = (d, [(0, 0), (0, 1), (0, 2), (1, 0), (1, 1), (1, 2)]) ∧
      d.get 1 2 = .ok 6 ∧ d.WellShaped ∧
      (∃ d', d.set 1 0 9 = .ok d' ∧ d.rows * d.cols ≤ wordLimit ∧
        (Guarded.set d 1 0 9 : Guarded Empty (Dense Int32)) = .ok d' ∧
        d'.get 1 0 = .ok 9 ∧ d'.get 0 2 = d.get 0 2 ∧
        (Guarded.get d' 1 1 : Guarded Empty Int32) = Guarded.get d 1 1) ∧
      ofRows [#[1, 2], #[3], #[(4 : Int32), 5, 6]] = .error (.lengthMismatch 2 1) := by
  intro rows d f
  have hrows : ofRows rows = .ok d := by decide
  have hf : ∀ i j x, entryAt? rows i j = some x → ∀ s, ((f i j).run s).1 = x := by
    intro i j x hx s
    show (entryAt? rows i j).getD 0 = x
    rw [hx]
    rfl
  have hword : (endToEnd rows).size < wordLimit := by decide
  obtain ⟨-, -, hmade, -, hwritten⟩ := constructors_agree rows
  obtain ⟨hfilled, hcounted⟩ := hmade d hrows
  obtain ⟨hcells, hshaped, hentries⟩ := hcounted hword
  obtain ⟨calls, hcalls⟩ := hfilled _ f hf []
  obtain ⟨x, hx, hget⟩ := hentries 1 (by decide) 2 (by decide)
  obtain ⟨hwrites, hget_set, hguarded⟩ := hwritten d 1 0 9
  obtain ⟨d', hset, -, hset'⟩ := hwrites hshaped (by decide) (by decide)
  have hlimit : d.rows * d.cols ≤ wordLimit := by decide
  have hragged : RowsDefect [#[1, 2], #[3], #[(4 : Int32), 5, 6]] (.lengthMismatch 2 1) := by
    refine .ragged (by decide) (by decide)
      (show _ = [#[1, 2]] ++ #[(3 : Int32)] :: [#[4, 5, 6]] from rfl) ?_ (by decide)
    simp [firstWidth]
  have hmatrix : ((ofFnM 2 3 f).run []).1 = d := congrArg Prod.fst hcalls
  have hlog : ((ofFnM 2 3 f).run []).2 = [(0, 0), (0, 1), (0, 2), (1, 0), (1, 1), (1, 2)] := by
    decide
  cases hx
  exact ⟨hrows, hf, hword, hcells, Prod.ext hmatrix hlog, hget, hshaped,
    ⟨d', hset, hlimit, hset', (hget_set d' hset hlimit 1 0).trans (if_pos ⟨rfl, rfl⟩),
      (hget_set d' hset hlimit 0 2).trans (if_neg (by decide)),
      (hguarded d' hset' 1 1).trans (if_neg (by decide))⟩,
    ((constructors_agree _).2.1 _).mpr hragged⟩

end SparseDatasets
