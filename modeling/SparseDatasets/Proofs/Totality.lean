import SparseDatasets.Proofs.Checks
import SparseDatasets.Proofs.Guarded

/-!
# No step of a validation goes wrong

The guards of `Guarded.validate` are never the reason for it to stop: on a matrix
that holds all its cells, and on any arrays at all, it gives the report that
validation without guards gives. The arrays decide nothing here. What the layout
check reads lies inside them because it reads a row only after all rows before it
were sound, and what the loose decoder reads lies inside them because it cuts every
span off where the slots end.

- `Guarded.Agrees`: a check with guards and one without find the same.
- `Guarded.Agrees.bind`, `Guarded.Agrees.foldlM_range`: checks one after the other.
- `Guarded.walk_agrees`, `Guarded.checkLayout_agrees`: the layout check.
- `Guarded.decodeLoosely_eq`, `Guarded.checkDecoding_agrees`: the comparison of the cells.
- `Guarded.checkDiagonal_agrees`, `Guarded.checkSymmetry_agrees`: the source matrix.
- `Guarded.checkStructure_eq`: the layout behind the comparison of the shapes.
- `validate_outcomes`: validation is total, and its checks do not mask each other.
-/

namespace SparseDatasets

namespace Guarded

variable {α β γ δ ε : Type}

/-! ## Steps that do not go wrong -/

theorem read_eq {xs : Array β} {i : Nat} {x : β} (h : xs[i]? = some x) :
    (read xs i : Guarded δ β) = .ok x := by
  rw [read, h]

theorem write_eq {xs : Array β} {i : Nat} (h : i < xs.size) (x : β) :
    (write xs i x : Guarded δ (Array β)) = .ok (xs.set i x h) := dif_pos h

theorem sub_eq {x y : Nat} (h : y ≤ x) : (sub x y : Guarded δ Nat) = .ok (x - y) := if_pos h

theorem fits_eq {n : Nat} (h : n < wordLimit) : (fits n : Guarded δ Unit) = .ok () := if_pos h

theorem divMod_eq {x y : Nat} (h : y ≠ 0) :
    (divMod x y : Guarded δ (Nat × Nat)) = .ok (x / y, x % y) := if_neg h

theorem read_rowPtr {m : Csr α} {r : Nat} (hr : r < m.rowPtr.size) :
    ∃ pointer, (read m.rowPtr r : Guarded δ UInt32) = .ok pointer ∧
      pointer.toNat = m.pointer r := by
  obtain ⟨pointer, hget, heq⟩ := Csr.getElem?_rowPtr hr
  exact ⟨pointer, read_eq hget, heq⟩

theorem get_eq {d : Dense α} (hd : d.WellShaped) {i j : Nat} (hi : i < d.rows) (hj : j < d.cols) :
    ∃ x, (get d i j : Guarded δ α) = .ok x ∧ d.get i j = .ok x := by
  obtain ⟨x, hx⟩ := hd.exists_cell hi hj
  have hoffset := offset_lt hi hj
  have hword := hd.word
  refine ⟨x, ?_, (hd.get_eq_ok_iff hi hj).mpr hx⟩
  rw [get, if_pos ⟨hi, hj⟩, fits_eq (by omega), ok_bind, fits_eq (by omega), ok_bind, read_eq hx]

theorem read_colIdx {m : Csr α} {slot : Nat} (hslot : slot < m.colIdx.size) :
    (read m.colIdx slot : Guarded δ UInt32) = .ok (m.column slot) :=
  read_eq (by rw [Array.getElem?_eq_getElem hslot, Csr.getElem_colIdx hslot])

/-! ## Checks with and without guards -/

/-- The guarded check meets no fault, and it finds what the check without guards finds. -/
def Agrees (x : Guarded δ β) (y : Except δ β) : Prop := x = y.mapError .defect

theorem agrees_ok {b : β} : Agrees (.ok b : Guarded δ β) (.ok b) := rfl

theorem agrees_error {e : δ} : Agrees (.error (.defect e) : Guarded δ β) (.error e) := rfl

theorem Agrees.bind {x : Guarded δ β} {y : Except δ β} {f : β → Guarded δ γ}
    {g : β → Except δ γ} (h : Agrees x y) (hrest : ∀ b, y = .ok b → Agrees (f b) (g b)) :
    Agrees (x >>= f) (y >>= g) := by
  cases y with
  | error e =>
    rw [show x = .error (.defect e) from h]
    exact agrees_error
  | ok b =>
    rw [show x = .ok b from h]
    exact hrest b rfl

theorem Agrees.ite {p : Prop} [Decidable p] {x x' : Guarded δ β} {y y' : Except δ β}
    (hthen : p → Agrees x y) (helse : ¬ p → Agrees x' y') :
    Agrees (if p then x else x') (if p then y else y') := by
  by_cases h : p
  · rw [if_pos h, if_pos h]
    exact hthen h
  · rw [if_neg h, if_neg h]
    exact helse h

/-- Folds over the numbers below a bound agree if each step does from where the fold without
guards has come to. -/
theorem Agrees.foldlM_range {f : β → Nat → Guarded δ β} {g : β → Nat → Except δ β} {n : Nat}
    {b : β} (h : ∀ r < n, ∀ c, (List.range r).foldlM g b = .ok c → Agrees (f c r) (g c r)) :
    Agrees ((List.range n).foldlM f b) ((List.range n).foldlM g b) := by
  induction n with
  | zero => exact agrees_ok
  | succ n ih =>
    rw [foldlM_succ, foldlM_succ]
    exact (ih fun r hr => h r (Nat.lt_succ_of_lt hr)).bind (h n (Nat.lt_succ_self n))

theorem Agrees.settle {x : Guarded δ β} {y : Except δ β} (h : Agrees x y) :
    settle x = .ok y := by
  rw [show x = y.mapError .defect from h]
  cases y <;> rfl

/-! ## The layout check -/

theorem checkSlot_agrees {m : Csr α} {row start slot : Nat} (hslot : slot < m.colIdx.size) :
    Agrees (checkSlot m row start slot) (m.checkSlot row start slot) := by
  rw [checkSlot, read_colIdx hslot, ok_bind, Csr.checkSlot]
  refine .ite (fun _ => agrees_error) fun _ => ?_
  by_cases hlater : start < slot
  · have hbefore : slot - 1 < m.colIdx.size := Nat.lt_of_le_of_lt (Nat.sub_le _ _) hslot
    simp only [hlater, if_true, true_and, sub_eq (Nat.succ_le_of_lt (Nat.zero_lt_of_lt hlater)),
      ok_bind, read_colIdx hbefore]
    exact .ite (fun _ => agrees_error) fun _ => agrees_ok
  · simp only [hlater, if_false, false_and]
    exact agrees_ok

/-- The walk checks the slots that the span claims, or those that are left if they are fewer. -/
theorem walk_agrees {m : Csr α} {row start expected cursor consumed : Nat}
    (hcursor : cursor = start + consumed) (hword : start + expected < wordLimit) :
    Agrees (walk m row start expected cursor consumed)
      ((List.range' cursor (min (expected - consumed) (m.slotCount - cursor))).forM
          (m.checkSlot row start) >>= fun _ =>
        pure (cursor + min (expected - consumed) (m.slotCount - cursor),
          consumed + min (expected - consumed) (m.slotCount - cursor))) := by
  fun_induction walk m row start expected cursor consumed with
  | case1 cursor consumed hgo ih =>
    obtain ⟨hslot, hspan⟩ := hgo
    have hcol : cursor < m.colIdx.size := by
      rw [Csr.slotCount] at hslot
      omega
    have htaken : min (expected - consumed) (m.slotCount - cursor) =
        min (expected - (consumed + 1)) (m.slotCount - (cursor + 1)) + 1 := by omega
    have ih := ih (by omega)
    rw [htaken, List.range'_succ]
    show Agrees _ ((m.checkSlot row start cursor >>= fun _ => _) >>= fun _ => _)
    rw [bind_assoc]
    refine (checkSlot_agrees hcol).bind fun _ _ => ?_
    rw [fits_eq (by omega), ok_bind, fits_eq (by omega), ok_bind]
    simpa only [Nat.add_assoc, Nat.add_comm 1] using ih
  | case2 cursor consumed hstop =>
    have htaken : min (expected - consumed) (m.slotCount - cursor) = 0 := by omega
    rw [htaken]
    exact agrees_ok

/-- The check of a row, from a cursor at the start of its span. -/
theorem checkRow_agrees {m : Csr α} {row : Nat} (hrow : row + 1 < m.rowPtr.size)
    (hword : row + 1 < wordLimit) :
    Agrees (checkRow m (m.pointer row) row) (m.checkRow (m.pointer row) row) := by
  obtain ⟨start, hstart, hstartEq⟩ := read_rowPtr (δ := LayoutDefect) (Nat.lt_of_succ_lt hrow)
  obtain ⟨stop, hstop, hstopEq⟩ := read_rowPtr (δ := LayoutDefect) hrow
  rw [checkRow, hstart, ok_bind, fits_eq hword, ok_bind, hstop, ok_bind, hstartEq, hstopEq]
  simp only [Csr.checkRow, throw_bind]
  refine .ite (fun _ => agrees_error) fun hspan => ?_
  rw [sub_eq (Nat.le_of_not_lt hspan), ok_bind]
  have hend : m.pointer row + (m.pointer (row + 1) - m.pointer row) < wordLimit := by
    have hpointer : m.pointer (row + 1) < indexLimit := hstopEq ▸ stop.toNat_lt
    have hlimit : indexLimit < wordLimit := by decide
    omega
  have hwalk : Agrees (walk m row (m.pointer row) (m.pointer (row + 1) - m.pointer row)
      (m.pointer row) 0) _ := walk_agrees rfl hend
  have hchecked := hwalk.bind
    (f := fun walked =>
      if walked.2 ≠ m.pointer (row + 1) - m.pointer row then
        .error (.defect (.partialSpan row (m.pointer (row + 1) - m.pointer row) walked.2))
      else .ok walked.1)
    (g := fun walked =>
      if walked.2 ≠ m.pointer (row + 1) - m.pointer row then
        throw (.partialSpan row (m.pointer (row + 1) - m.pointer row) walked.2)
      else pure walked.1)
    fun walked _ => .ite (fun _ => agrees_error) fun _ => agrees_ok
  simpa only [Nat.sub_zero, Nat.zero_add, bind_assoc, pure_bind] using hchecked

/-- The rows are read only behind sound rows, where the cursor stands at a pointer. -/
theorem checkLayout_agrees {m : Csr α} (hword : m.rows < wordLimit) :
    Agrees (checkLayout m) m.checkLayout := by
  rw [checkLayout]
  simp only [Csr.checkLayout, throw_bind]
  refine .ite (fun _ => agrees_error) fun hsize => ?_
  have hsize := not_not.mp hsize
  have hget : m.rowPtr[0]? = some (m.rowPtr.getD 0 0) := by simp [Array.getD, hsize]
  rw [read_eq hget, ok_bind]
  refine .ite (fun _ => agrees_error) fun hfirst => ?_
  have hzero : m.pointer 0 = 0 := by
    rw [Csr.pointer, not_not.mp hfirst]
    rfl
  refine (Agrees.foldlM_range fun r hr cursor hcursor => ?_).bind fun _ _ => ?_
  · obtain ⟨rfl, -, -⟩ := (Csr.foldlM_checkRow_eq_ok_iff hzero).mp hcursor
    exact checkRow_agrees (by omega) (by omega)
  · obtain ⟨final, hfinal, hfinalEq⟩ := read_rowPtr (m := m) (r := m.rows) (δ := LayoutDefect)
      (by omega)
    rw [hfinal, ok_bind, hfinalEq]
    exact .ite (fun _ => agrees_error) fun _ => agrees_ok

/-! ## The comparison of the cells -/

section Cells

variable [Element α] {m : Csr α} {d : Dense α} {rows cols row : Nat}

/-- Writes an entry into its cell. -/
def writeEntry (cols : Nat) (cells : Array α) (entry : Nat × Nat × α) :
    Except AccessFault (Array α) :=
  Dense.writeCell cells (Dense.offset cols entry.1 entry.2.1) entry.2.2

/-- What a row places in a shape of `cols` columns. -/
def looseSpan (m : Csr α) (cols row : Nat) : List (Nat × Nat × α) :=
  (m.span row (min (m.pointer row) m.slotCount) (min (m.pointer (row + 1)) m.slotCount)).filter
    fun entry => entry.2.1 < cols

/-- The slots of a row are written one after the other, less those whose column is outside. -/
theorem decodeSlots_eq {slots : List Nat} {cells : Array α} (hrow : row < rows)
    (hword : rows * cols < wordLimit) (hsize : cells.size = rows * cols)
    (hslots : ∀ slot ∈ slots, slot < m.slotCount) :
    ∃ out, (slots.foldlM (decodeSlot m cols row) cells : Guarded δ (Array α)) = .ok out ∧
      ((slots.map fun slot => (row, (m.column slot).toNat, m.value slot)).filter
        fun entry => entry.2.1 < cols).foldlM (writeEntry cols) cells = .ok out ∧
      out.size = rows * cols := by
  induction slots generalizing cells with
  | nil => exact ⟨cells, rfl, rfl, hsize⟩
  | cons slot slots ih =>
    have hslot := hslots slot List.mem_cons_self
    have hrest := fun s hs => hslots s (List.mem_cons_of_mem slot hs)
    rw [Csr.slotCount, Nat.lt_min] at hslot
    rw [List.foldlM_cons, decodeSlot, read_colIdx hslot.1, ok_bind, List.map_cons]
    by_cases hcol : (m.column slot).toNat < cols
    · have hoffset := offset_lt hrow hcol
      have hplace : row * cols + (m.column slot).toNat < cells.size := hsize ▸ hoffset
      have hvalue : m.values[slot]? = some (m.value slot) := by
        simp [Csr.value, Array.getD, hslot.2]
      rw [if_pos hcol, read_eq hvalue, ok_bind, fits_eq (by omega), ok_bind, fits_eq (by omega),
        ok_bind, write_eq hplace, ok_bind, List.filter_cons_of_pos (by simpa using hcol),
        List.foldlM_cons]
      simp only [writeEntry, Dense.writeCell, Dense.offset_eq hrow hcol hword, hplace, ↓reduceDIte]
      exact ih (by rw [Array.size_set, hsize]) hrest
    · rw [if_neg hcol, ok_bind, List.filter_cons_of_neg (by simpa using hcol)]
      exact ih hsize hrest

theorem decodeRow_eq {cells : Array α} (hrow : row < rows) (hpointers : row + 1 < m.rowPtr.size)
    (hrowWord : row + 1 < wordLimit) (hword : rows * cols < wordLimit)
    (hsize : cells.size = rows * cols) :
    ∃ out, (decodeRow m cols cells row : Guarded δ (Array α)) = .ok out ∧
      (looseSpan m cols row).foldlM (writeEntry cols) cells = .ok out ∧
      out.size = rows * cols := by
  obtain ⟨start, hstart, hstartEq⟩ := read_rowPtr (δ := δ) (Nat.lt_of_succ_lt hpointers)
  obtain ⟨stop, hstop, hstopEq⟩ := read_rowPtr (δ := δ) hpointers
  rw [decodeRow, hstart, ok_bind, fits_eq hrowWord, ok_bind, hstop, ok_bind, hstartEq, hstopEq]
  refine decodeSlots_eq hrow hword hsize fun slot hslot => ?_
  have := List.mem_range'_1.mp hslot
  omega

theorem decodeRows_eq {n : Nat} (cells : Array α) (hrows : n ≤ rows)
    (hpointers : n < m.rowPtr.size ∨ n = 0) (hrowsWord : rows < wordLimit)
    (hword : rows * cols < wordLimit) (hsize : cells.size = rows * cols) :
    ∃ out, ((List.range n).foldlM (decodeRow m cols) cells : Guarded δ (Array α)) = .ok out ∧
      ((List.range n).flatMap (looseSpan m cols)).foldlM (writeEntry cols) cells = .ok out ∧
      out.size = rows * cols := by
  induction n with
  | zero => exact ⟨cells, rfl, rfl, hsize⟩
  | succ n ih =>
    obtain ⟨before, hguarded, hplain, hbefore⟩ := ih (by omega) (by omega)
    rw [foldlM_succ, hguarded, ok_bind, List.range_succ, List.flatMap_append,
      List.foldlM_append, hplain, ok_bind, List.flatMap_singleton]
    exact decodeRow_eq (by omega) (by omega) (by omega) hword hbefore

/-- The loose decoder runs into no fault, whatever the arrays are. -/
theorem decodeLoosely_eq (hrows : rows < wordLimit) (hword : rows * cols < wordLimit) :
    ∃ cells, (decodeLoosely m rows cols : Guarded δ (Array α)) = .ok cells ∧
      m.decodeLoosely rows cols = .ok cells := by
  have hcount : cellCount rows cols = rows * cols := Nat.mod_eq_of_lt hword
  obtain ⟨cells, hguarded, hplain, -⟩ := decodeRows_eq (m := m) (δ := δ)
    (n := min rows (m.rowPtr.size - 1)) (Array.replicate (rows * cols) 0) (Nat.min_le_left _ _)
    (by omega) hrows hword Array.size_replicate
  refine ⟨cells, ?_, ?_⟩
  · rw [decodeLoosely, fits_eq hword, ok_bind]
    exact hguarded
  · rw [Csr.decodeLoosely, hcount]
    exact hplain

theorem checkDecoding_agrees (hd : d.WellShaped) (hrows : d.rows < wordLimit) (m : Csr α) :
    ∃ result, SparseDatasets.checkDecoding d m = .ok result ∧
      Agrees (checkDecoding d m) result := by
  obtain ⟨cells, hguarded, hplain⟩ := decodeLoosely_eq (m := m) (δ := MatrixError) hrows hd.word
  cases hfind : (d.cells.toList.zip cells.toList).findIdx?
      (fun pair => !Element.sameValue pair.1 pair.2) with
  | none =>
    obtain ⟨result, hresult, hok⟩ := checkDecoding_eq (d := d) hplain
    have hsame : result = .ok () := by
      refine hok.mpr fun k x y hx hy => ?_
      have hmem : (x, y) ∈ d.cells.toList.zip cells.toList :=
        List.mem_of_getElem? (i := k) (List.getElem?_zip_eq_some.mpr ⟨by simpa, by simpa⟩)
      simpa using List.findIdx?_eq_none_iff.mp hfind (x, y) hmem
    refine ⟨result, hresult, ?_⟩
    rw [checkDecoding, hguarded, ok_bind, hfind, hsame]
    exact agrees_ok
  | some k =>
    obtain ⟨hk, hdiffers, hbefore⟩ := List.findIdx?_eq_some_iff_getElem.mp hfind
    rw [List.length_zip, Nat.lt_min, Array.length_toList, Array.length_toList] at hk
    have hx : d.cells[k]? = some d.cells[k] := Array.getElem?_eq_getElem hk.1
    have hy : cells[k]? = some cells[k] := Array.getElem?_eq_getElem hk.2
    -- a matrix without columns has no cells that could differ
    have hcols : d.cols ≠ 0 := by
      intro hnone
      have hsize := hd.size_eq
      rw [hnone, Nat.mul_zero] at hsize
      omega
    refine ⟨_, checkDecoding_first hplain hx hy (by simpa using hdiffers) ?_, ?_⟩
    · intro j hj u v hu hv
      obtain ⟨hjd, rfl⟩ := Array.getElem?_eq_some_iff.mp hu
      obtain ⟨hjc, rfl⟩ := Array.getElem?_eq_some_iff.mp hv
      simpa using hbefore j hj
    · rw [checkDecoding, hguarded, ok_bind, hfind]
      simp only [divMod_eq hcols, ok_bind, read_eq hx, read_eq hy]
      exact agrees_error

/-! ## The checks of the source matrix -/

/-- Searches whose steps agree agree. -/
theorem searchFrom_eq {f : Nat → Guarded δ (Option β)} {g : Nat → Except ε (Option β)}
    {count start : Nat}
    (h : ∀ i, start ≤ i → i < start + count → ∃ r, f i = .ok r ∧ g i = .ok r) :
    ∃ r, searchFrom f count start = .ok r ∧ searchFrom g count start = .ok r := by
  induction count generalizing start with
  | zero => exact ⟨none, rfl, rfl⟩
  | succ count ih =>
    obtain ⟨r, hf, hg⟩ := h start (Nat.le_refl _) (by omega)
    rw [searchFrom, searchFrom, hf, hg, ok_bind, ok_bind]
    cases r with
    | some x => exact ⟨some x, rfl, rfl⟩
    | none => exact ih fun i hge hlt => h i (by omega) (by omega)

theorem checkDiagonal_agrees (hd : d.WellShaped) :
    ∃ result, d.checkDiagonal = .ok result ∧ Agrees (checkDiagonal d) result := by
  obtain ⟨found, hguarded, hplain⟩ : ∃ r,
      (searchFrom (zeroAt? d) (min d.rows d.cols) 0 : Guarded MatrixError _) = .ok r ∧
        searchFrom d.zeroAt? (min d.rows d.cols) 0 = .ok r := by
    refine searchFrom_eq fun i _ hi => ?_
    obtain ⟨x, hx, hx'⟩ := get_eq (δ := MatrixError) hd (i := i) (j := i) (by omega) (by omega)
    rw [zeroAt?, Dense.zeroAt?, hx, hx']
    exact ⟨_, rfl, rfl⟩
  rw [checkDiagonal, Dense.checkDiagonal, hguarded, hplain, ok_bind, ok_bind]
  cases found with
  | none => exact ⟨_, rfl, agrees_ok⟩
  | some i => exact ⟨_, rfl, agrees_error⟩

theorem checkSymmetry_agrees (hd : d.WellShaped) (hrows : d.rows < wordLimit) :
    ∃ result, d.checkSymmetry = .ok result ∧ Agrees (checkSymmetry d) result := by
  by_cases hsquare : d.cols = d.rows
  · obtain ⟨found, hguarded, hplain⟩ : ∃ r,
        (searchFrom (differsIn? d) d.rows 0 : Guarded MatrixError _) = .ok r ∧
          searchFrom (fun row => searchFrom (d.differsAt? row) (d.rows - (row + 1)) (row + 1))
            d.rows 0 = .ok r := by
      refine searchFrom_eq fun row _ hrow => ?_
      rw [differsIn?, fits_eq (by omega), ok_bind]
      refine searchFrom_eq fun col _ hcol => ?_
      obtain ⟨x, hx, hx'⟩ :=
        get_eq (δ := MatrixError) hd (i := row) (j := col) (by omega) (by omega)
      obtain ⟨y, hy, hy'⟩ :=
        get_eq (δ := MatrixError) hd (i := col) (j := row) (by omega) (by omega)
      rw [differsAt?, Dense.differsAt?, hx, hx', ok_bind, ok_bind, hy, hy']
      exact ⟨_, rfl, rfl⟩
    simp only [checkSymmetry, Dense.checkSymmetry, ne_eq, hsquare, not_true_eq_false, if_false,
      hguarded, hplain, ok_bind]
    cases found with
    | none => exact ⟨_, rfl, agrees_ok⟩
    | some cell => exact ⟨_, rfl, agrees_error⟩
  · simp only [checkSymmetry, Dense.checkSymmetry, ne_eq, hsquare, not_false_eq_true, if_true]
    exact ⟨_, rfl, agrees_error⟩

end Cells

/-- The arrays are walked only if their shape is that of the matrix. -/
theorem checkStructure_eq {m : Csr α} (hword : m.rows < wordLimit) (d : Dense α) :
    checkStructure d m = .ok (SparseDatasets.checkStructure d m) := by
  rw [checkStructure, SparseDatasets.checkStructure]
  by_cases hshape : (d.rows, d.cols) ≠ (m.rows, m.cols)
  · rw [if_pos hshape, if_pos hshape]
    rfl
  · rw [if_neg hshape, if_neg hshape, (checkLayout_agrees hword).settle, ok_bind]
    cases m.checkLayout <;> rfl

end Guarded

/-! ## Validation -/

variable {α : Type}

theorem checkStructure_eq_mapError (d : Dense α) (m : Csr α) :
    checkStructure d m = if (d.rows, d.cols) = (m.rows, m.cols) then m.checkLayout.mapError .layout
      else .error (.layout (.shapeMismatch (d.rows, d.cols) (m.rows, m.cols))) := by
  rw [checkStructure, ite_not]
  congr 1
  cases m.checkLayout <;> rfl

variable [Element α]

/-- **Validation is total**: on any arrays it gives a report, and no step of it goes wrong. The
report has the outcomes of all four checks, each of which is what the check finds on its own. -/
theorem validate_outcomes {d : Dense α} (hd : d.WellShaped) (hrows : d.rows < wordLimit)
    (m : Csr α) (hword : m.rows < wordLimit) (required : Requirements) :
    ∃ decoding diagonal symmetry report,
      checkDecoding d m = .ok decoding ∧ d.checkDiagonal = .ok diagonal ∧
      d.checkSymmetry = .ok symmetry ∧
      validate d m required = .ok report ∧ Guarded.validate d m required = .ok report ∧
      report.outcomes =
        [(.structural, .ofResult (if (d.rows, d.cols) = (m.rows, m.cols)
            then m.checkLayout.mapError .layout
            else .error (.layout (.shapeMismatch (d.rows, d.cols) (m.rows, m.cols))))),
          (.decodeEquivalence, .ofResult decoding),
          (.diagonalNonzero, if required.diagonal then .ofResult diagonal else .skipped),
          (.symmetry, if required.symmetry then .ofResult symmetry else .skipped)] := by
  obtain ⟨decoding, hdecoding, hagreesDecoding⟩ := Guarded.checkDecoding_agrees hd hrows m
  obtain ⟨diagonal, hdiagonal, hagreesDiagonal⟩ := Guarded.checkDiagonal_agrees hd
  obtain ⟨symmetry, hsymmetry, hagreesSymmetry⟩ := Guarded.checkSymmetry_agrees hd hrows
  rw [← checkStructure_eq_mapError]
  refine ⟨decoding, diagonal, symmetry, ⟨_⟩, hdecoding, hdiagonal, hsymmetry, ?_, ?_, rfl⟩
  · rw [validate, hdecoding, hdiagonal, hsymmetry]
    cases required.diagonal <;> cases required.symmetry <;> rfl
  · rw [Guarded.validate, Guarded.checkStructure_eq hword, hagreesDecoding.settle,
      hagreesDiagonal.settle, hagreesSymmetry.settle]
    cases required.diagonal <;> cases required.symmetry <;> rfl

/-- Arrays that claim as many rows as a word can number, with a pointer behind all slots and a
column that no matrix has. -/
theorem validate_outcomes_most_rows :
    let d : Dense Int32 := ⟨2, 2, #[1, 3, 0, 4]⟩
    let m : Csr Int32 := ⟨wordLimit - 1, 2, #[0, 4294967295, 1], #[4294967295, 0], #[1]⟩
    d.WellShaped ∧ d.rows < wordLimit ∧ m.rows < wordLimit ∧
      ∃ report, Guarded.validate d m .conjugateGradient = .ok report ∧
        report.outcomes =
          [(.structural, .failed (.layout (.shapeMismatch (2, 2) (wordLimit - 1, 2)))),
            (.decodeEquivalence, .failed (.roundTrip 0 0 (Element.toBinary64 (1 : Int32)) 0)),
            (.diagonalNonzero, .passed),
            (.symmetry, .failed (.asymmetry 0 1))] := by
  intro d m
  have hd : d.WellShaped := ⟨rfl, by decide⟩
  have hrows : d.rows < wordLimit := by decide
  have hword : m.rows < wordLimit := by decide
  obtain ⟨decoding, diagonal, symmetry, report, hdecoding, hdiagonal, hsymmetry, -, hreport,
    houtcomes⟩ := validate_outcomes hd hrows m hword .conjugateGradient
  have hdecodes : checkDecoding d m =
      .ok (.error (.roundTrip 0 0 (Element.toBinary64 (1 : Int32)) 0)) := by decide +kernel
  have hnonzero : d.checkDiagonal = .ok (.ok ()) := by decide +kernel
  have hdiffers : d.checkSymmetry = .ok (.error (.asymmetry 0 1)) := by decide +kernel
  refine ⟨hd, hrows, hword, report, hreport, ?_⟩
  rw [houtcomes, ← Except.ok.inj (hdecodes.symm.trans hdecoding),
    ← Except.ok.inj (hnonzero.symm.trans hdiagonal),
    ← Except.ok.inj (hdiffers.symm.trans hsymmetry)]
  rfl

end SparseDatasets
