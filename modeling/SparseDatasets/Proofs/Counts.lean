import SparseDatasets.Proofs.Gate

/-!
# How many nonzeros an encoding reports

A matrix counts its nonzero cells, an encoding the values that it stores. Whatever
passes the gate stores every nonzero cell once, but a zero that the source declares
is stored as well and counted with the rest. The two counts differ by the zeros that
are stored, and agree iff none is.

- `Generated.Declares.support_eq`: the nonzero cells among those that are declared.
- `Generated.Declares.nnz_eq`: the two counts and the stored zeros between them.
- `certify_counts`: when what passed the gate reports the count of the matrix.
-/

namespace SparseDatasets

variable {α : Type} [Element α]

namespace Generated

variable {g : Generated α}

/-- A declared cell, as the encoding stores it. -/
theorem Declares.getElem?_eq (h : g.Declares) (hd : g.dense.WellShaped) {k : Nat}
    (hk : k ∈ g.support.positions.toList) :
    g.dense.cells[k]? = some (g.dense.cells.getD k 0) := by
  have hlt : k < g.dense.cells.size := h.lt_size hd (Array.mem_toList_iff.mp hk)
  rw [Array.getD_eq_getD_getElem?, Array.getElem?_eq_getElem hlt, Option.getD_some]

theorem encoded_nnz (g : Generated α) : g.encoded.nnz = g.support.positions.toList.length := by
  show (g.support.positions.map fun k => g.dense.cells.getD k 0).size = _
  simp

/-- If all nonzero cells are declared, they are those of the declared cells that are not zero. -/
theorem Declares.support_eq (h : g.Declares) (hd : g.dense.WellShaped) (hcovered : g.Covered) :
    g.dense.support.positions.toList =
      g.support.positions.toList.filter fun k => !Element.isZero (g.dense.cells.getD k 0) := by
  -- both lists ascend, so it is enough that they have the same members
  refine g.dense.support_pairwise.eq_of_mem_iff (h.ascending.filter _) fun k => ?_
  rw [Dense.mem_support, List.mem_filter]
  constructor
  · rintro ⟨x, hx, hnonzero⟩
    have hk : k ∈ g.support.positions.toList :=
      Array.mem_toList_iff.mpr (hcovered k x hx hnonzero)
    rw [h.getElem?_eq hd hk, Option.some.injEq] at hx
    exact ⟨hk, by rw [hx, hnonzero]; rfl⟩
  · rintro ⟨hk, hnonzero⟩
    exact ⟨_, h.getElem?_eq hd hk, by simpa using hnonzero⟩

/-- The encoding stores the nonzero cells and the zeros that are declared. -/
theorem Declares.nnz_eq (h : g.Declares) (hd : g.dense.WellShaped) (hcovered : g.Covered) :
    g.encoded.nnz = g.dense.nnz + g.encoded.values.countP Element.isZero := by
  have hstored : g.encoded.values.countP Element.isZero =
      g.support.positions.toList.countP fun k => Element.isZero (g.dense.cells.getD k 0) := by
    show (g.support.positions.map fun k => g.dense.cells.getD k 0).countP _ = _
    rw [← Array.countP_toList, Array.toList_map, List.countP_map]
    rfl
  rw [encoded_nnz, hstored, ← Dense.support_length, h.support_eq hd hcovered,
    ← List.countP_eq_length_filter]
  have hsplit := List.length_eq_countP_add_countP
    (fun k => !Element.isZero (g.dense.cells.getD k 0)) (l := g.support.positions.toList)
  simpa using hsplit

/-- No zero is stored iff every cell that is declared is a nonzero one. -/
theorem Declares.stores_no_zero_iff (h : g.Declares) (hd : g.dense.WellShaped) :
    g.encoded.values.countP Element.isZero = 0 ↔
      ∀ k ∈ g.support.positions, ∃ x, g.dense.cells[k]? = some x ∧ Element.isZero x = false := by
  show (g.support.positions.map fun k => g.dense.cells.getD k 0).countP _ = 0 ↔ _
  rw [Array.countP_eq_zero, Array.forall_mem_map]
  refine forall₂_congr fun k hk => ?_
  rw [h.getElem?_eq hd (Array.mem_toList_iff.mpr hk)]
  simp

/-- If no zero is stored, the support that is declared is that of the matrix. -/
theorem Declares.encode_eq (h : g.Declares) (hd : g.dense.WellShaped) (hcovered : g.Covered)
    (hnone : g.encoded.nnz = g.dense.nnz) : g.dense.encode = .ok (.ok g.encoded) := by
  have hsize : g.encoded.nnz = g.support.positions.toList.length := g.encoded_nnz
  have hsupport : g.support = g.dense.support := by
    have hlist : g.dense.support.positions.toList = g.support.positions.toList := by
      rw [h.support_eq hd hcovered]
      refine List.filter_eq_self.mpr (List.length_filter_eq_length_iff.mp ?_)
      rw [← h.support_eq hd hcovered, Dense.support_length]
      omega
    exact congrArg Support.mk (Array.toList_inj.mp hlist.symm)
  have hcompressible : g.dense.Compressible :=
    ⟨hd, h.rows_pos, h.cols_pos, h.rows_lt, h.cols_lt, hnone ▸ hsize ▸ h.length_lt⟩
  rw [hcompressible.encode_eq, Dense.compressed, encoded, hsupport]

end Generated

/-! ## What passes the gate -/

variable [LawfulElement α] [ReportsZero α]

/-- **What passes the gate counts the zeros that it stores.** Its count exceeds that of the matrix
by these, and it answers the questions for the count and for the share of the nonzero cells as
the matrix does iff every cell that the source declared is a nonzero one. In that case it is the
encoding of the matrix. -/
theorem certify_counts {g : Generated α} (hd : g.dense.WellShaped) {shape : Nat × Nat}
    {required : Requirements} {c : Certified α}
    (h : certify shape g required = .ok (.ok c)) :
    c.csr.nnz = c.dense.nnz + c.csr.values.countP Element.isZero ∧
      ((c.csr.nnz = c.dense.nnz ∧ c.csr.sparsity = c.dense.sparsity) ↔
        ∀ k ∈ g.support.positions, ∃ x, g.dense.cells[k]? = some x ∧
          Element.isZero x = false) ∧
      (c.csr.nnz = c.dense.nnz → c.dense.encode = .ok (.ok c.csr)) := by
  obtain ⟨hdeclares, hcovered, rfl⟩ := accepted_of_certify_eq_ok hd h
  have hcount := hdeclares.nnz_eq hd hcovered
  refine ⟨hcount, ?_, fun hsame => ?_⟩
  · rw [← hdeclares.stores_no_zero_iff hd]
    constructor
    · rintro ⟨hsame, -⟩
      exact Nat.add_eq_left.mp (hcount.symm.trans hsame)
    · intro hnone
      have hsame : g.encoded.nnz = g.dense.nnz := by omega
      refine ⟨hsame, ?_⟩
      show sharedOver g.dense.rows g.dense.cols g.encoded.nnz = _
      rw [hsame]
      rfl
  · exact hdeclares.encode_eq hd hcovered hsame

/-- A matrix whose support is declared as it is, with a negative zero left out. -/
theorem certify_counts_exact :
    let d : Dense Binary64 := ⟨1, 2, #[⟨0x8000000000000000⟩, 1]⟩
    ∃ c, d.WellShaped ∧ certify (1, 2) ⟨d, ⟨#[1]⟩⟩ .matrixVector = .ok (.ok c) ∧
      c.csr.nnz = c.dense.nnz ∧ d.encode = .ok (.ok c.csr) := by
  intro d
  have hd : d.WellShaped := ⟨rfl, by decide⟩
  have hgate : certify (1, 2) ⟨d, ⟨#[1]⟩⟩ .matrixVector = .ok (.ok ⟨d, d.compressed,
      ⟨[(.structural, .passed), (.decodeEquivalence, .passed), (.diagonalNonzero, .skipped),
        (.symmetry, .skipped)]⟩⟩) := by
    decide +kernel
  obtain ⟨-, hiff, hencode⟩ := certify_counts (g := ⟨d, ⟨#[1]⟩⟩) hd hgate
  have hsame := (hiff.mpr (by decide)).1
  exact ⟨_, hd, hgate, hsame, hencode hsame⟩

/-- A zero that the source declares is counted by the encoding and not by the matrix. -/
theorem certify_counts_declared_zero :
    ∃ c, certify (1, 1) ⟨⟨1, 1, #[(0 : Binary64)]⟩, ⟨#[0]⟩⟩ .matrixVector = .ok (.ok c) ∧
      c.dense.nnz = 0 ∧ c.csr.nnz = 1 ∧ c.dense.sparsity = 0 ∧ c.csr.sparsity = 1 := by
  refine ⟨⟨⟨1, 1, #[0]⟩, ⟨1, 1, #[0, 1], #[0], #[0]⟩, ⟨[(.structural, .passed),
    (.decodeEquivalence, .passed), (.diagonalNonzero, .skipped), (.symmetry, .skipped)]⟩⟩, ?_⟩
  decide +kernel

end SparseDatasets
