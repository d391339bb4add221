import SparseDatasets.Proofs.Indexing
import SparseDatasets.Proofs.Totality

/-!
# The rows that any arrays have

A row is read from two neighbouring pointers and the span between them. Nothing else
decides whether there is one: the number of rows that the record declares is not
asked. Four figures have a say, the number of pointers, the lengths of the two arrays
of slots and the number of the row, and they may disagree in any way. A row outside
the declared shape is absent if there are no more pointers than the shape needs, as
in every layout that the check accepts; with more pointers it may be there.

- `IsSlice`: the entries of an array between two positions.
- `Guarded.slice?`, `Guarded.row?`: a row read with a guard at each step.
- `Csr.HasSpan`: the pointers of a row are there, with a span inside both arrays.
- `Csr.HasSpan.row?_eq`, `Csr.row?_eq_none_iff`: what a row is, and when there is none.
- `Guarded.row?_eq`: its guards hold on any arrays.
- `Csr.row?_reads`: reading a row never goes wrong, and what it gives.
-/

namespace SparseDatasets

variable {α β δ : Type}

/-! ## Slices -/

/-- The entries from `start` up to `stop`, all of which the array has. -/
structure IsSlice (xs : Array β) (start stop : Nat) (part : Array β) : Prop where
  start_le : start ≤ stop
  stop_le : stop ≤ xs.size
  size_eq : part.size = stop - start
  getElem?_eq : ∀ k < stop - start, part[k]? = xs[start + k]?

theorem isSlice_extract {xs : Array β} {start stop : Nat} (hle : start ≤ stop)
    (hstop : stop ≤ xs.size) : IsSlice xs start stop (xs.extract start stop) where
  start_le := hle
  stop_le := hstop
  size_eq := by rw [Array.size_extract, Nat.min_eq_left hstop]
  getElem?_eq k hk := by rw [Array.getElem?_extract, if_pos (by omega)]

namespace Guarded

/-- There is no slice that runs backwards or past the end. -/
def slice? (xs : Array β) (start stop : Nat) : Option (Array β) :=
  if start ≤ stop ∧ stop ≤ xs.size then some (xs.extract start stop) else none

theorem slice?_eq {xs : Array β} {start stop : Nat} (hle : start ≤ stop) (hstop : stop ≤ xs.size) :
    slice? xs start stop = some (xs.extract start stop) := if_pos ⟨hle, hstop⟩

theorem slice?_eq_none {xs : Array β} {start stop : Nat} (h : ¬ (start ≤ stop ∧ stop ≤ xs.size)) :
    slice? xs start stop = none := if_neg h

/-- Asks for the pointer behind that of the row only where the row has one. -/
def row? (m : Csr α) (row : Nat) : Guarded δ (Option (Array UInt32 × Array α)) :=
  match m.rowPtr[row]? with
  | none => .ok none
  | some start => do
    fits (row + 1)
    match m.rowPtr[row + 1]? with
    | none => .ok none
    | some stop => .ok do
      let columns ← slice? m.colIdx start.toNat stop.toNat
      let values ← slice? m.values start.toNat stop.toNat
      some (columns, values)

end Guarded

namespace Csr

variable {m : Csr α} {r : Nat} {start stop : UInt32}

/-! ## Spans and rows -/

/-- The pointers of the row are there, and the span between them runs forwards and inside both
arrays. -/
structure HasSpan (m : Csr α) (row : Nat) (start stop : UInt32) : Prop where
  start_eq : m.rowPtr[row]? = some start
  stop_eq : m.rowPtr[row + 1]? = some stop
  start_le : start.toNat ≤ stop.toNat
  stop_le : stop.toNat ≤ m.slotCount

theorem HasSpan.row?_eq (h : m.HasSpan r start stop) :
    m.row? r = some (m.colIdx.extract start.toNat stop.toNat,
      m.values.extract start.toNat stop.toNat) := by
  have hstart := pointer_eq_of_getElem? h.start_eq
  have hstop := pointer_eq_of_getElem? h.stop_eq
  obtain ⟨hcol, hval⟩ := Nat.le_min.mp h.stop_le
  rw [row?_eq_some (Array.getElem?_eq_some_iff.mp h.stop_eq).1
    (by rw [hstart, hstop]; exact h.start_le) (by rwa [hstop]) (by rwa [hstop]), hstart, hstop]

/-- A row is absent where it has no span. -/
theorem row?_eq_none_iff : m.row? r = none ↔ ∀ start stop, ¬ m.HasSpan r start stop := by
  constructor
  · intro hnone start stop h
    rw [h.row?_eq] at hnone
    cases hnone
  · intro hnone
    rw [row?]
    cases hstart : m.rowPtr[r]? with
    | none => rfl
    | some start =>
      cases hstop : m.rowPtr[r + 1]? with
      | none => rfl
      | some stop =>
        exact if_neg fun hspan => hnone start stop
          ⟨hstart, hstop, hspan.1, Nat.le_min.mpr hspan.2⟩

/-- Only the number of pointers bounds the rows. -/
theorem row?_eq_none_of_size_le (h : m.rowPtr.size ≤ r + 1) : m.row? r = none :=
  row?_eq_none_iff.mpr fun _ _ hspan => by
    have hstop := hspan.stop_eq
    rw [Array.getElem?_eq_none h] at hstop
    cases hstop

end Csr

/-- A row that has a pointer is numbered below the number of pointers, and so the number of the
next one is a word. -/
theorem Guarded.row?_eq {m : Csr α} (hsize : m.rowPtr.size < wordLimit) (r : Nat) :
    (row? m r : Guarded δ _) = .ok (m.row? r) := by
  rw [row?, Csr.row?]
  cases hstart : m.rowPtr[r]? with
  | none => rfl
  | some start =>
    have hr : r < m.rowPtr.size := (Array.getElem?_eq_some_iff.mp hstart).1
    simp only [fits_eq (Nat.lt_of_le_of_lt (Nat.succ_le_of_lt hr) hsize), ok_bind]
    cases m.rowPtr[r + 1]? with
    | none => rfl
    | some stop =>
      by_cases hcol : start.toNat ≤ stop.toNat ∧ stop.toNat ≤ m.colIdx.size
      · by_cases hval : stop.toNat ≤ m.values.size
        · simp [slice?_eq hcol.1 hcol.2, slice?_eq hcol.1 hval, hcol, hval]
        · have hvalues : ¬ (start.toNat ≤ stop.toNat ∧ stop.toNat ≤ m.values.size) :=
            fun h => hval h.2
          simp [slice?_eq hcol.1 hcol.2, slice?_eq_none hvalues, hval]
      · simp [slice?_eq_none hcol, ← and_assoc, hcol]

/-- **Reading a row never goes wrong**, whatever the arrays and whatever the number of the row. The
row is there iff it has a span, and then it is the slots of that span in both arrays. A row outside
the shape is absent if there are no more pointers than the shape needs. -/
theorem Csr.row?_reads {m : Csr α} (hsize : m.rowPtr.size < wordLimit) (r : Nat) :
    (Guarded.row? m r : Guarded MatrixError _) = .ok (m.row? r) ∧
      ((m.row? r).isSome ↔ ∃ start stop, m.HasSpan r start stop) ∧
      (∀ start stop, m.HasSpan r start stop → ∃ columns values,
        m.row? r = some (columns, values) ∧
        IsSlice m.colIdx start.toNat stop.toNat columns ∧
        IsSlice m.values start.toNat stop.toNat values) ∧
      (m.rowPtr.size ≤ m.rows + 1 → m.rows ≤ r → m.row? r = none) := by
  refine ⟨Guarded.row?_eq hsize r, ?_, fun start stop h => ?_, fun hpointers hr =>
    row?_eq_none_of_size_le (by omega)⟩
  · rw [← Option.ne_none_iff_isSome, ne_eq, row?_eq_none_iff]
    simp only [not_forall, not_not]
  · obtain ⟨hcol, hval⟩ := Nat.le_min.mp h.stop_le
    exact ⟨_, _, h.row?_eq, isSlice_extract h.start_le hcol, isSlice_extract h.start_le hval⟩

/-- Fewer pointers than the shape needs, more columns than values, and the greatest row that a word
can number. -/
theorem Csr.row?_reads_greatest_word :
    let m : Csr Int32 := ⟨2, 3, #[1, 3], #[0, 2, 1, 2], #[5, 6, 7]⟩
    m.rowPtr.size < wordLimit ∧ m.HasSpan 0 1 3 ∧
      (∃ columns values, m.row? 0 = some (columns, values) ∧ IsSlice m.colIdx 1 3 columns ∧
        IsSlice m.values 1 3 values) ∧
      m.rowPtr.size ≤ m.rows + 1 ∧ m.rows ≤ wordLimit - 1 ∧
      (Guarded.row? m (wordLimit - 1) : Guarded MatrixError _) = .ok none := by
  intro m
  have hsize : m.rowPtr.size < wordLimit := by decide
  have hspan : m.HasSpan 0 1 3 := ⟨rfl, rfl, by decide, by decide⟩
  have hpointers : m.rowPtr.size ≤ m.rows + 1 := by decide
  have hrows : m.rows ≤ wordLimit - 1 := by decide
  obtain ⟨-, -, hreads, -⟩ := row?_reads hsize 0
  obtain ⟨hguarded, -, -, hnone⟩ := row?_reads hsize (wordLimit - 1)
  rw [hnone hpointers hrows] at hguarded
  exact ⟨hsize, hspan, hreads 1 3 hspan, hpointers, hrows, hguarded⟩

/-- Three pointers for a shape of one row: the row behind it is there. -/
theorem Csr.row?_outside_shape :
    let m : Csr Int32 := ⟨1, 2, #[0, 1, 2], #[0, 1], #[1, 2]⟩
    m.rows ≤ 1 ∧ m.row? 1 = some (#[1], #[2]) ∧
      (Guarded.row? m 1 : Guarded MatrixError _) = .ok (some (#[1], #[2])) :=
  ⟨by decide, by decide, rfl⟩

end SparseDatasets
