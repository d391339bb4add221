import SparseDatasets.Proofs.Draws
import SparseDatasets.Proofs.Placement
import SparseDatasets.Proofs.ReadBack

/-!
# What an accepted comparison has compared

The comparison of the cells walks two lists side by side and stops where the shorter
one ends. Every constructor of a matrix gives as many cells as its shape says, as a
word counts them, and whatever is written into a matrix leaves their number as it is.
On such a matrix the two lists are equally long, and what is accepted has been
compared as a whole. A matrix that is read from a text is not held to its shape: there
only the cells that both lists have are compared, and what the arrays put behind them
passes unseen.

- `Dense.Built`: matrices from the constructors, and what is written into them.
- `Dense.Built.size_eq`: they have as many cells as their shape says.
- `Csr.decodeLoosely_size`: so has what the arrays decode to.
- `checkDecoding_compares`: what has been compared if the comparison accepts.
-/

namespace SparseDatasets

variable {α : Type} [Element α]

/-! ## Matrices that are built -/

namespace Dense

/-- Matrices from the constructors, the strict decoder among them, and what comes of writing into
them: one cell, or all of the cells without changing their number. -/
inductive Built : Dense α → Prop where
  | ofCells {rows cols : Nat} {cells : Array α} {d : Dense α} :
      ofCells rows cols cells = .ok d → Built d
  | ofRows {rows : List (Array α)} {d : Dense α} : ofRows rows = .ok d → Built d
  | ofFn {σ : Type} {rows cols : Nat} {f : Nat → Nat → StateM σ α} {s : σ} :
      Built ((ofFnM rows cols f).run s).1
  | zeros {rows cols : Nat} : Built (zeros rows cols)
  | decoded {m : Csr α} {d : Dense α} : m.toDense = .ok (.ok d) → Built d
  | set {d d' : Dense α} {row col : Nat} {x : α} :
      Built d → d.set row col x = .ok d' → Built d'
  | overwrite {d : Dense α} {cells : Array α} :
      Built d → cells.size = d.cells.size → Built { d with cells }

/-- As many cells as the shape says, as a word counts them. -/
def Counted (d : Dense α) : Prop := d.cells.size % wordLimit = cellCount d.rows d.cols

omit [Element α] in
theorem counted_of_size_eq {d : Dense α} (h : d.cells.size = d.rows * d.cols) : d.Counted := by
  rw [Counted, h, cellCount]

omit [Element α] in
theorem ofCells_size {rows cols : Nat} {cells : Array α} {d : Dense α}
    (h : ofCells rows cols cells = .ok d) : d.cells.size = d.rows * d.cols := by
  unfold ofCells at h
  split at h
  · cases h
  split at h
  · cases h
  split at h
  · cases h
  rename_i hsize
  cases h
  exact not_not.mp hsize

omit [Element α] in
theorem ofRows_size {rows : List (Array α)} {d : Dense α} (h : ofRows rows = .ok d) :
    d.cells.size = d.rows * d.cols := by
  unfold ofRows at h
  dsimp only at h
  split at h
  · cases h
  split at h
  · cases h
  rename_i hfind
  cases h
  -- no row is longer or shorter than the first one
  have hlengths : (rows.map Array.toList).map List.length =
      rows.map fun _ => (rows.head?.map Array.size).getD 0 := by
    rw [List.map_map]
    refine List.map_congr_left fun row hrow => ?_
    simpa using List.find?_eq_none.mp hfind row hrow
  rw [List.size_toArray, List.length_flatten, hlengths, List.map_const', List.sum_replicate_nat]

theorem zeros_counted (rows cols : Nat) : (zeros rows cols : Dense α).Counted := by
  show (Array.replicate (cellCount rows cols) (0 : α)).size % wordLimit = cellCount rows cols
  rw [Array.size_replicate, cellCount, Nat.mod_mod]

omit [Element α] in
theorem size_writeCell {cells out : Array α} {k : Nat} {x : α}
    (h : writeCell cells k x = .ok out) : out.size = cells.size := by
  unfold writeCell at h
  split at h
  · cases h
    exact Array.size_set _
  · cases h

omit [Element α] in
/-- Writing a cell keeps the shape and the number of cells. -/
theorem Counted.set {d d' : Dense α} {row col : Nat} {x : α} (hd : d.Counted)
    (h : d.set row col x = .ok d') : d'.Counted := by
  unfold Dense.set at h
  split at h
  · split at h
    · rename_i cells hwrite
      cases h
      show cells.size % wordLimit = _
      rw [size_writeCell hwrite]
      exact hd
    · cases h
  · cases h

/-- What the strict decoder gives is written into zeros. -/
theorem counted_of_toDense {m : Csr α} {d : Dense α} (h : m.toDense = .ok (.ok d)) :
    d.Counted := by
  unfold Csr.toDense at h
  split at h
  · cases h
  · rw [bind_eq_ok] at h
    obtain ⟨dense, hfold, heq⟩ := h
    cases heq
    exact foldlM_preserves (fun _ _ _ hd hset => hd.set hset) (zeros_counted m.rows m.cols) hfold

/-- Each way of building a matrix keeps the count. -/
theorem Built.counted {d : Dense α} (h : d.Built) : d.Counted := by
  induction h with
  | ofCells h => exact counted_of_size_eq (ofCells_size h)
  | ofRows h => exact counted_of_size_eq (ofRows_size h)
  | ofFn => exact counted_of_size_eq (ofFnM_size _)
  | zeros => exact zeros_counted _ _
  | decoded h => exact counted_of_toDense h
  | set _ hset ih => exact ih.set hset
  | overwrite _ hsize ih =>
    show _ % wordLimit = _
    rw [hsize]
    exact ih

/-- **A matrix that is built has as many cells as its shape says.** -/
theorem Built.size_eq {d : Dense α} (h : d.Built) (hsize : d.cells.size < wordLimit) :
    d.cells.size = cellCount d.rows d.cols := by
  rw [← h.counted, Nat.mod_eq_of_lt hsize]

end Dense

/-! ## What is compared -/

/-- What the arrays decode to has as many cells as the shape says, if it is anything at all. -/
theorem Csr.decodeLoosely_size {m : Csr α} {rows cols : Nat} {cells : Array α}
    (h : m.decodeLoosely rows cols = .ok cells) : cells.size = cellCount rows cols :=
  foldlM_preserves (P := fun cells => cells.size = cellCount rows cols)
    (fun _ _ _ hsize hwrite => (Dense.size_writeCell hwrite).trans hsize) Array.size_replicate h

/-- **An accepted comparison has compared what both sides hold**, and that is the whole of them
exactly if the matrix has as many cells as its shape says. A matrix that was built and not read
from a text has, and on a matrix that holds all its cells nothing that the arrays leave inside its
shape has gone uncompared. -/
theorem checkDecoding_compares {d : Dense α} {m : Csr α}
    (h : checkDecoding d m = .ok (.ok ())) :
    ∃ cells, m.decodeLoosely d.rows d.cols = .ok cells ∧
      (∀ (k : Nat) (x y : α), d.cells[k]? = some x → cells[k]? = some y →
        Element.sameValue x y = true) ∧
      (List.Forall₂ (fun x y => Element.sameValue x y = true) d.cells.toList cells.toList ↔
        d.cells.size = cellCount d.rows d.cols) ∧
      (d.Built → d.cells.size < wordLimit →
        List.Forall₂ (fun x y => Element.sameValue x y = true) d.cells.toList cells.toList) ∧
      (d.WellShaped → ∀ i < d.rows, ∀ j < d.cols, ∀ y, m.Leaves i j y →
        ∃ x, d.get i j = .ok x ∧ Element.sameValue x y = true) := by
  obtain ⟨cells, hdecode, -⟩ := bind_eq_ok.mp h
  obtain ⟨result, hresult, hok⟩ := checkDecoding_eq (d := d) hdecode
  have hcompared := hok.mp (Except.ok.inj (hresult.symm.trans h))
  have hsize := Csr.decodeLoosely_size hdecode
  have hwhole : List.Forall₂ (fun x y => Element.sameValue x y = true) d.cells.toList
      cells.toList ↔ d.cells.size = cellCount d.rows d.cols := by
    rw [List.forall₂_iff_zip, Array.length_toList, Array.length_toList, hsize]
    refine and_iff_left fun {x y} hpair => ?_
    obtain ⟨k, hk⟩ := List.mem_iff_getElem?.mp hpair
    obtain ⟨hx, hy⟩ := List.getElem?_zip_eq_some.mp hk
    exact hcompared k x y (by simpa using hx) (by simpa using hy)
  refine ⟨cells, hdecode, hcompared, hwhole, fun hbuilt hword => hwhole.mpr (hbuilt.size_eq hword),
    fun hd i hi j hj y hy => ?_⟩
  obtain ⟨cells', hdecode', -, hleaves⟩ := m.decodeLoosely_eq_ok_leaves hd.word
  cases hdecode.symm.trans hdecode'
  obtain ⟨x, hx⟩ := hd.exists_cell hi hj
  exact ⟨x, (hd.get_eq_ok_iff hi hj).mpr hx,
    hcompared _ x y hx ((hleaves i hi j hj y).mpr hy)⟩

/-- A matrix written into zeros, against arrays that store one of its cells twice. -/
theorem checkDecoding_compares_stored_twice :
    let d : Dense Int32 := ⟨2, 2, #[1, 0, 0, 2]⟩
    let m : Csr Int32 := ⟨2, 2, #[0, 2, 3], #[0, 0, 1], #[7, 1, 2]⟩
    checkDecoding d m = .ok (.ok ()) ∧ d.Built ∧ d.cells.size < wordLimit ∧ d.WellShaped ∧
      List.Forall₂ (fun x y => Element.sameValue x y = true) d.cells.toList [1, 0, 0, 2] ∧
      ∀ i < d.rows, ∀ j < d.cols, ∀ y, m.Leaves i j y →
        ∃ x, d.get i j = .ok x ∧ Element.sameValue x y = true := by
  intro d m
  have haccepted : checkDecoding d m = .ok (.ok ()) := by decide +kernel
  have hfirst : (Dense.zeros 2 2).set 0 0 (1 : Int32) = .ok ⟨2, 2, #[1, 0, 0, 0]⟩ := rfl
  have hsecond : Dense.set ⟨2, 2, #[1, 0, 0, 0]⟩ 1 1 (2 : Int32) = .ok d := rfl
  have hbuilt : d.Built := (Dense.Built.zeros.set hfirst).set hsecond
  have hword : d.cells.size < wordLimit := by decide
  have hd : d.WellShaped := ⟨rfl, hword⟩
  have hdecodes : m.decodeLoosely d.rows d.cols = .ok #[1, 0, 0, 2] := by decide +kernel
  obtain ⟨cells, hcells, -, -, hwhole, hplaced⟩ := checkDecoding_compares haccepted
  cases hdecodes.symm.trans hcells
  exact ⟨haccepted, hbuilt, hword, hd, hwhole hbuilt hword, hplaced hd⟩

/-- A matrix that is read from its text, with one cell instead of two. The arrays put a value behind
it, where it is compared with nothing, and the whole validation passes. -/
theorem checkDecoding_passes_short :
    let d : Dense Int32 := ⟨1, 2, #[0]⟩
    let m : Csr Int32 := ⟨1, 2, #[0, 1], #[1], #[5]⟩
    JsonForm.ReadsBack d ∧ d.rows * d.cols = 2 ∧ d.cells.size = 1 ∧
      m.decodeLoosely d.rows d.cols = .ok #[0, 5] ∧ checkDecoding d m = .ok (.ok ()) ∧
      ∃ report, validate d m .matrixVector = .ok report ∧ report.isOk = true := by
  intro d m
  have hread : JsonForm.ReadsBack d :=
    (Dense.faithful (by decide) (by decide) fun x _ => faithful_int32 x).readsBack
  exact ⟨hread, rfl, rfl, by decide +kernel, by decide +kernel,
    ⟨[(.structural, .passed), (.decodeEquivalence, .passed), (.diagonalNonzero, .skipped),
      (.symmetry, .skipped)]⟩, by decide +kernel, by decide +kernel⟩

end SparseDatasets
