import SparseDatasets.Matrix.Encode
import SparseDatasets.Proofs.Indexing

/-!
# The encoder

The encoder never divides: it keeps the offset just after the open row and moves
it. `Frontier.Tracks` is the accounting that ties this boundary to the counting
definition of compressed rows. Closing a row and placing an offset keep it, so
it holds after every list of ascending offsets, and what is left open at the end
is closed with the count of all of them.

- `Admissible`: what the encoder asks of a shape and a list of offsets.
- `InputDefect.first?_eq_none_iff`: the check accepts the admissible inputs.
- `Frontier.Tracks`: the accounting of the pass.
- `Frontier.Tracks.foldl_place`: the accounting along a whole run.
- `Csr.indexes_ofPositions`: the encoder's arrays index its offsets.
- `Lookups`: the calls of a stateful lookup.
- `Csr.encode_of_defect`, `Csr.encode_of_overflow`, `Csr.encode_of_countable`: the three ways that
  the encoder ends.
- `Csr.encode_indexes`: the encoder computes the textbook form.
-/

namespace SparseDatasets

/-! ## The contract -/

/-- What the encoder asks of a shape and a list of offsets. -/
structure Admissible (rows cols : Nat) (positions : List Nat) : Prop where
  rows_pos : 0 < rows
  cols_pos : 0 < cols
  cells_lt : rows * cols < wordLimit
  cols_lt : cols < indexLimit
  length_lt : positions.length < indexLimit
  ascending : positions.Pairwise (· < ·)
  inside : ∀ i ∈ positions, i < rows * cols

namespace InputDefect

/-- The scan accepts the offsets that lie inside and ascend from the one before them. -/
theorem firstPosition?_eq_none_iff {limit position : Nat} {previous : Option Nat}
    {positions : List Nat} :
    firstPosition? limit position previous positions = none ↔
      (∀ i ∈ positions, i < limit) ∧ (previous.toList ++ positions).IsChain (· < ·) := by
  induction positions generalizing position previous with
  | nil => cases previous <;> simp [firstPosition?]
  | cons index rest ih =>
    by_cases hlimit : limit ≤ index
    · have : ¬ index < limit := Nat.not_lt.mpr hlimit
      simp [firstPosition?, hlimit, this]
    · have hlt : index < limit := Nat.lt_of_not_le hlimit
      cases previous with
      | none => simp [firstPosition?, hlimit, hlt, ih]
      | some before =>
        by_cases hle : index ≤ before
        · have : ¬ before < index := Nat.not_lt.mpr hle
          simp [firstPosition?, hlimit, hle, this]
        · have : before < index := Nat.lt_of_not_le hle
          simp [firstPosition?, hlimit, hle, hlt, this, ih]

/-- The check finds nothing exactly on the admissible inputs. -/
theorem first?_eq_none_iff {rows cols : Nat} {positions : Array Nat} :
    first? rows cols positions = none ↔ Admissible rows cols positions.toList := by
  have hscan : firstPosition? (rows * cols) 0 none positions.toList = none ↔
      (∀ i ∈ positions.toList, i < rows * cols) ∧ positions.toList.Pairwise (· < ·) := by
    rw [firstPosition?_eq_none_iff, Option.toList_none, List.nil_append,
      List.isChain_iff_pairwise]
  constructor
  · intro h
    simp only [first?] at h
    split at h
    · cases h
    split at h
    · cases h
    split at h
    · cases h
    split at h
    · cases h
    obtain ⟨hin, hasc⟩ := hscan.mp h
    exact ⟨by omega, by omega, by omega, by omega, by rw [Array.length_toList]; omega, hasc, hin⟩
  · intro h
    have hrows := h.rows_pos
    have hcols := h.cols_pos
    have hcells := h.cells_lt
    have hcolsLt := h.cols_lt
    have hlength := h.length_lt
    rw [Array.length_toList] at hlength
    rw [first?, if_neg (by omega), if_neg (by omega), if_neg (by omega), if_neg (by omega)]
    exact hscan.mpr ⟨h.inside, h.ascending⟩

end InputDefect

/-! ## The accounting of the pass -/

namespace Frontier

/-- The accounting of the pass, over the offsets placed so far:
1. the boundary is the start of the row after the open one;
2. the open row is one of the matrix;
3. the pointers of the open row and of the rows before it count the offsets before them;
4. the columns are those of the offsets;
5. no offset lies beyond the open row. -/
structure Tracks (rows cols : Nat) (s : Frontier) (placed : List Nat) : Prop where
  boundary_eq : s.boundary = (s.closed + 1) * cols
  closed_lt : s.closed < rows
  rowPtr_eq : s.rowPtr.toList =
    (List.range (s.closed + 1)).map fun r => (placed.countP (· < r * cols)).toUInt32
  colIdx_eq : s.colIdx.toList = placed.map fun i => (i % cols).toUInt32
  below : ∀ i ∈ placed, i < s.boundary

variable {rows cols : Nat} {s : Frontier} {placed : List Nat}

theorem tracks_start (hrows : 0 < rows) : (start cols).Tracks rows cols [] where
  boundary_eq := by simp [start]
  closed_lt := hrows
  rowPtr_eq := by simp [start]
  colIdx_eq := rfl
  below := by simp

namespace Tracks

theorem colIdx_size (h : s.Tracks rows cols placed) : s.colIdx.size = placed.length := by
  simpa using congrArg List.length h.colIdx_eq

/-- Every offset placed lies before the rows after the open one. -/
theorem countP_eq_length (h : s.Tracks rows cols placed) {r : Nat} (hr : s.closed < r) :
    placed.countP (· < r * cols) = placed.length := by
  refine List.countP_eq_length.mpr fun i hi => ?_
  have hbelow := h.below i hi
  have hrow : (s.closed + 1) * cols ≤ r * cols := Nat.mul_le_mul_right cols hr
  rw [h.boundary_eq] at hbelow
  simp only [decide_eq_true_eq]
  omega

/-- Closing a row keeps the accounting if there is a row after it. -/
theorem closeRow (h : s.Tracks rows cols placed) (hnext : s.closed + 1 < rows) :
    (s.closeRow cols).Tracks rows cols placed where
  boundary_eq := by
    show s.boundary + cols = (s.closed + 1 + 1) * cols
    rw [h.boundary_eq, Nat.succ_mul (s.closed + 1)]
  closed_lt := hnext
  rowPtr_eq := by
    show (s.rowPtr.push s.colIdx.size.toUInt32).toList =
      (List.range (s.closed + 1 + 1)).map fun r => (placed.countP (· < r * cols)).toUInt32
    rw [Array.toList_push, h.rowPtr_eq, List.range_succ (n := s.closed + 1), List.map_append,
      List.map_singleton, h.countP_eq_length (Nat.lt_succ_self _), h.colIdx_size]
  colIdx_eq := h.colIdx_eq
  below := by
    intro i hi
    show i < s.boundary + cols
    exact Nat.lt_of_lt_of_le (h.below i hi) (Nat.le_add_right _ _)

/-- Advancing opens the row of the offset that is placed next. -/
theorem advance (h : s.Tracks rows cols placed) (hcols : 0 < cols) {index : Nat}
    (hopen : s.closed * cols ≤ index) (hin : index < rows * cols) :
    (s.advance cols index).Tracks rows cols placed ∧
      (s.advance cols index).closed = index / cols := by
  fun_induction Frontier.advance cols index s with
  | case1 s hstop =>
    -- the open row holds the offset
    have hlt : index < (s.closed + 1) * cols := by
      rw [← h.boundary_eq]
      omega
    exact ⟨h, (Nat.div_eq_of_lt_le hopen hlt).symm⟩
  | case2 s hgo ih =>
    -- the offset lies beyond the open row, so there is a row after it
    have hle : (s.closed + 1) * cols ≤ index := by
      rw [← h.boundary_eq]
      omega
    have hnext : s.closed + 1 < rows := Nat.lt_of_mul_lt_mul_right (Nat.lt_of_le_of_lt hle hin)
    exact ih (h.closeRow hnext) hle

/-- An offset of the open row is placed in it. -/
theorem put (h : s.Tracks rows cols placed) {index : Nat} (hopen : s.closed * cols ≤ index)
    (hlt : index < s.boundary) :
    ({ s with colIdx := s.colIdx.push (index - (s.boundary - cols)).toUInt32 } : Frontier).Tracks
      rows cols (placed ++ [index]) := by
  have hboundary := h.boundary_eq
  refine { boundary_eq := hboundary, closed_lt := h.closed_lt,
           rowPtr_eq := ?_, colIdx_eq := ?_, below := ?_ }
  · -- the pointers written so far are for rows up to the open one, and the offset is not before it
    show s.rowPtr.toList = _
    rw [h.rowPtr_eq]
    refine List.map_congr_left fun r hr => ?_
    have hr : r ≤ s.closed := Nat.le_of_lt_succ (List.mem_range.mp hr)
    have hrow : r * cols ≤ s.closed * cols := Nat.mul_le_mul_right cols hr
    rw [List.countP_append, List.countP_singleton, if_neg (by simp; omega), Nat.add_zero]
  · -- the start of the open row is the offset less its column
    have hrow : index / cols = s.closed := Nat.div_eq_of_lt_le hopen (hboundary ▸ hlt)
    have hcol : index - (s.boundary - cols) = index % cols := by
      rw [hboundary, Nat.succ_mul, Nat.add_sub_cancel, ← hrow, Nat.mod_eq_sub_div_mul]
    rw [Array.toList_push, h.colIdx_eq, hcol, List.map_append, List.map_singleton]
  · intro i hi
    show i < s.boundary
    rcases List.mem_append.mp hi with hi | hi
    · exact h.below i hi
    · rw [List.mem_singleton.mp hi]
      exact hlt

/-- Placing an offset that is not before the open row keeps the accounting and opens the row of
the offset. -/
theorem place (h : s.Tracks rows cols placed) (hcols : 0 < cols) {index : Nat}
    (hopen : s.closed * cols ≤ index) (hin : index < rows * cols) :
    (s.place cols index).Tracks rows cols (placed ++ [index]) ∧
      (s.place cols index).closed = index / cols := by
  obtain ⟨hadv, hclosed⟩ := h.advance hcols hopen hin
  refine ⟨hadv.put ?_ ?_, hclosed⟩
  · rw [hclosed]
    exact Nat.div_mul_le_self index cols
  · rw [hadv.boundary_eq, hclosed, Nat.succ_mul]
    exact Nat.lt_div_mul_add hcols

/-- The accounting along a run over ascending offsets that starts in the open row. -/
theorem foldl_place (h : s.Tracks rows cols placed) (hcols : 0 < cols) {rest : List Nat}
    (hasc : rest.Pairwise (· < ·)) (hopen : ∀ i ∈ rest, s.closed * cols ≤ i)
    (hin : ∀ i ∈ rest, i < rows * cols) :
    (rest.foldl (Frontier.place cols) s).Tracks rows cols (placed ++ rest) := by
  induction rest generalizing s placed with
  | nil => simpa using h
  | cons index rest ih =>
    obtain ⟨hafter, hrest⟩ := List.pairwise_cons.mp hasc
    obtain ⟨hstep, hclosed⟩ := h.place hcols (hopen index List.mem_cons_self)
      (hin index List.mem_cons_self)
    -- the offsets that follow lie beyond this one, and so not before the row it opened
    have hopen' : ∀ i ∈ rest, (s.place cols index).closed * cols ≤ i := by
      intro i hi
      rw [hclosed]
      exact Nat.le_trans (Nat.div_mul_le_self index cols) (Nat.le_of_lt (hafter i hi))
    have hrun := ih hstep hrest hopen' fun i hi => hin i (List.mem_cons_of_mem _ hi)
    rw [List.append_assoc, List.singleton_append] at hrun
    exact hrun

/-- Closing the rows that are still open completes the pointers. -/
theorem finish (h : s.Tracks rows cols placed) :
    (s.finish rows).toList =
      (List.range (rows + 1)).map fun r => (placed.countP (· < r * cols)).toUInt32 := by
  have hlt := h.closed_lt
  -- the rows up to the open one are closed already
  have hsplit : List.range (rows + 1) =
      List.range (s.closed + 1) ++ List.range' (s.closed + 1) (rows - s.closed) := by
    have happend := List.range'_append_1 (s := 0) (m := s.closed + 1) (n := rows - s.closed)
    rw [Nat.zero_add] at happend
    rw [List.range_eq_range', List.range_eq_range', happend]
    congr 1
    omega
  rw [Frontier.finish, Array.toList_append, h.rowPtr_eq, hsplit, List.map_append,
    Array.toList_replicate]
  congr 1
  symm
  refine List.eq_replicate_iff.mpr ⟨by simp, fun x hx => ?_⟩
  obtain ⟨r, hr, rfl⟩ := List.mem_map.mp hx
  have hopen : s.closed < r := (List.mem_range'_1.mp hr).1
  rw [h.countP_eq_length hopen, h.colIdx_size]

end Tracks

/-- The accounting holds after the whole pass. -/
theorem tracks_run {positions : List Nat} (h : Admissible rows cols positions) :
    (run cols positions).Tracks rows cols positions := by
  have hstart : (start cols).Tracks rows cols [] := tracks_start h.rows_pos
  have hrun := hstart.foldl_place h.cols_pos h.ascending (by simp [start]) h.inside
  simpa [run] using hrun

end Frontier

/-! ## The arrays of the encoder -/

namespace Csr

variable {α : Type}

theorem toNat_toUInt32_of_lt {n : Nat} (h : n < indexLimit) : n.toUInt32.toNat = n := by
  rw [UInt32.toNat_ofNat']
  exact Nat.mod_eq_of_lt h

/-- **The pass computes the textbook form**: the arrays that it builds from admissible offsets
index these offsets. Counts and columns fit an index, so nothing is lost when they are stored. -/
theorem indexes_ofPositions {rows cols : Nat} {positions : Array Nat} {values : Array α}
    (h : Admissible rows cols positions.toList) :
    (ofPositions rows cols positions values).Indexes positions.toList := by
  have hrun := Frontier.tracks_run h
  constructor
  · show ((Frontier.run cols positions.toList).finish rows).toList.map UInt32.toNat =
      (List.range (rows + 1)).map fun r => positions.toList.countP (· < r * cols)
    rw [hrun.finish, List.map_map]
    refine List.map_congr_left fun r _ => toNat_toUInt32_of_lt ?_
    exact Nat.lt_of_le_of_lt List.countP_le_length h.length_lt
  · show (Frontier.run cols positions.toList).colIdx.toList.map UInt32.toNat =
      positions.toList.map (· % cols)
    rw [hrun.colIdx_eq, List.map_map]
    refine List.map_congr_left fun i _ => toNat_toUInt32_of_lt ?_
    exact Nat.lt_trans (Nat.mod_lt i h.cols_pos) h.cols_lt

end Csr

/-! ## The calls of the lookup -/

/-- The calls of a stateful lookup over a list of offsets: one for each offset, in order, each
from the state in which the one before it ended. The values are the results of the calls. -/
inductive Lookups {σ α : Type} (lookup : Nat → StateM σ α) : List Nat → σ → List α → σ → Prop
  | nil (s : σ) : Lookups lookup [] s [] s
  | cons {index : Nat} {rest : List Nat} {s t u : σ} {x : α} {xs : List α} :
    (lookup index).run s = (x, t) → Lookups lookup rest t xs u →
      Lookups lookup (index :: rest) s (x :: xs) u

namespace Lookups

variable {σ α : Type} {lookup : Nat → StateM σ α}

/-- There are as many values as offsets. -/
theorem length_eq {positions : List Nat} {s t : σ} {values : List α}
    (h : Lookups lookup positions s values t) : values.length = positions.length := by
  induction h with
  | nil s => rfl
  | cons _ _ ih => rw [List.length_cons, List.length_cons, ih]

/-- Mapping a list of offsets makes these calls and no other. -/
theorem of_mapM (lookup : Nat → StateM σ α) (positions : List Nat) (s : σ) :
    Lookups lookup positions s ((positions.mapM lookup).run s).1
      ((positions.mapM lookup).run s).2 := by
  induction positions generalizing s with
  | nil => exact .nil s
  | cons index rest ih =>
    rw [List.mapM_cons]
    exact .cons rfl (ih ((lookup index).run s).2)

/-- The same for an array of offsets. -/
theorem of_mapM_array (lookup : Nat → StateM σ α) (positions : Array Nat) (s : σ) :
    Lookups lookup positions.toList s ((positions.mapM lookup).run s).1.toList
      ((positions.mapM lookup).run s).2 := by
  rw [Array.mapM_eq_mapM_toList]
  exact of_mapM lookup positions.toList s

end Lookups

namespace Csr

/-! ## The outcomes of the encoder -/

section Outcomes

variable {m : Type → Type} [Monad m] {α : Type} {rows cols : Nat} {positions : Array Nat}
  {lookup : Nat → m α}

/-- Input that breaks the contract is refused before a call is made. -/
theorem encode_of_defect {defect : InputDefect}
    (h : InputDefect.first? rows cols positions = some defect) :
    Csr.encode rows cols positions lookup = pure (.ok (.error (.input defect))) := by
  rw [Csr.encode, h]

/-- There is one row pointer more than there are rows, and a word must be able to count them. -/
theorem encode_of_overflow (h : InputDefect.first? rows cols positions = none)
    (hrows : wordLimit ≤ rows + 1) :
    Csr.encode rows cols positions lookup = pure (.error .overflow) := by
  rw [Csr.encode, h]
  exact if_pos hrows

/-- If it can, the values are looked up and a matrix is made of them. -/
theorem encode_of_countable (h : InputDefect.first? rows cols positions = none)
    (hrows : rows + 1 < wordLimit) :
    Csr.encode rows cols positions lookup = do
      let values ← positions.mapM lookup
      return .ok (.ok (ofPositions rows cols positions values)) := by
  rw [Csr.encode, h]
  exact if_neg (Nat.not_le.mpr hrows)

end Outcomes

/-- **The encoder computes compressed rows as textbooks define them.** On every input that
passes its check, and whose row pointers a word can count, it returns a matrix of the given shape
whose index arrays index the offsets. The lookup is called once for each offset, in order, and its
results are the values. Every row, empty or not, holds the columns and the values of the offsets
that lie in it. -/
theorem encode_indexes {σ α : Type} {rows cols : Nat} {positions : Array Nat}
    (lookup : Nat → StateM σ α) (s : σ)
    (h : InputDefect.first? rows cols positions = none) (hrows : rows + 1 < wordLimit) :
    ∃ (m : Csr α) (t : σ),
      (Csr.encode rows cols positions lookup).run s = (.ok (.ok m), t) ∧
      m.rows = rows ∧ m.cols = cols ∧ m.Indexes positions.toList ∧
      Lookups lookup positions.toList s m.values.toList t ∧
      ∀ r < rows, ∃ columns values, m.row? r = some (columns, values) ∧
        columns.toList.map UInt32.toNat =
          (positions.toList.filter fun i => i / cols = r).map (· % cols) ∧
        values.toList = ((positions.toList.zip m.values.toList).filter
          fun cell => cell.1 / cols = r).map (·.2) := by
  have hin := InputDefect.first?_eq_none_iff.mp h
  have hcalls := Lookups.of_mapM_array lookup positions s
  generalize hrun : (positions.mapM lookup).run s = run at hcalls
  obtain ⟨values, t⟩ := run
  have hindexes : (ofPositions rows cols positions values).Indexes positions.toList :=
    indexes_ofPositions hin
  refine ⟨ofPositions rows cols positions values, t, ?_, rfl, rfl, hindexes, hcalls, ?_⟩
  · rw [encode_of_countable h hrows, StateT.run_bind, hrun]
    rfl
  · intro r hr
    exact hindexes.row?_eq hin.ascending hin.cols_pos hcalls.length_eq hr

/-- The second of two offsets lies after an empty row and before another. The lookup keeps a list
of its calls. -/
theorem encode_indexes_empty_rows :
    InputDefect.first? 4 3 #[0, 7] = none ∧
      ∃ (m : Csr Nat) (calls : List Nat),
        (Csr.encode (m := StateM (List Nat)) 4 3 #[0, 7]
          fun i calls => (10 * i, calls ++ [i])).run [] = (.ok (.ok m), calls) ∧
        m.rowPtr.toList.map UInt32.toNat = [0, 1, 1, 2, 2] ∧
        m.colIdx.toList.map UInt32.toNat = [0, 1] ∧
        m.values.toList = [0, 70] ∧ calls = [0, 7] := by
  have hcheck : InputDefect.first? 4 3 #[0, 7] = none := by decide
  obtain ⟨m, calls, hrun, hrows, hcols, hindexes, hcalls, -⟩ :=
    encode_indexes (fun i calls => ((10 * i : Nat), calls ++ [i])) ([] : List Nat) hcheck
      (by decide)
  refine ⟨hcheck, m, calls, hrun, ?_, ?_, ?_⟩
  · rw [hindexes.rowPtr_eq, hrows, hcols]
    decide
  · rw [hindexes.colIdx_eq, hcols]
    decide
  · generalize m.values.toList = values at hcalls
    cases hcalls with
    | cons hfirst hrest =>
      cases hrest with
      | cons hsecond hend =>
        cases hend
        cases hfirst
        cases hsecond
        exact ⟨rfl, rfl⟩

/-- The greatest number of rows that is a word has one row pointer too many, although the check
passes. -/
theorem encode_greatest_rows :
    let outcome := (Csr.encode (m := StateM (List Nat)) 18446744073709551615 1 #[]
      fun i calls => (i, calls ++ [i])).run []
    InputDefect.first? 18446744073709551615 1 #[] = none ∧ outcome = (.error .overflow, []) ∧
      ¬ ∃ m calls, outcome = (.ok (.ok m), calls) := by
  intro outcome
  have hcheck : InputDefect.first? 18446744073709551615 1 #[] = none := by decide
  have houtcome : outcome = (.error .overflow, []) :=
    congrArg (StateT.run · []) (encode_of_overflow hcheck (by decide))
  refine ⟨hcheck, houtcome, ?_⟩
  rintro ⟨m, calls, hok⟩
  cases houtcome.symm.trans hok

end Csr

end SparseDatasets
