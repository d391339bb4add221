import SparseDatasets.Dataset.Gate
import SparseDatasets.Proofs.Verdict

/-!
# What passes the gate

The gate encodes a matrix at the support that its source declares and then
compares. A support may declare too much: a zero that is declared is stored, and
decodes to itself. It may not declare too little: a nonzero cell that is left out
decodes to zero, and the first such cell is the first thing that the report
blames, as the layout of an encoding is always sound. What is left to fail are the
checks of the matrix itself.

- `Generated.Covered`, `Generated.FirstMissed`: all nonzero cells are declared, or the first that
  is not.
- `Generated.encoded`: the arrays for the cells that are declared.
- `Generated.decodes_encoded`: what they decode to.
- `Dense.Meets`, `Dense.FirstFault`: the checks of the matrix that are asked for, and the first of
  them that fails.
- `certify_eq`: the gate on admissible input, by its report.
- `certify_verdict`: what becomes of every input.
-/

namespace SparseDatasets

variable {α : Type} [Element α]

/-! ## Declared supports -/

namespace Generated

/-- Every nonzero cell is declared. -/
def Covered (g : Generated α) : Prop :=
  ∀ k x, g.dense.cells[k]? = some x → Element.isZero x = false → k ∈ g.support.positions

/-- The first nonzero cell that is not declared, and its value. -/
structure FirstMissed (g : Generated α) (k : Nat) (x : α) : Prop where
  cell : g.dense.cells[k]? = some x
  nonzero : Element.isZero x = false
  missed : k ∉ g.support.positions
  before : ∀ j < k, ∀ y, g.dense.cells[j]? = some y → Element.isZero y = false →
    j ∈ g.support.positions

/-- The arrays for the cells that are declared. -/
def encoded (g : Generated α) : Csr α :=
  .ofPositions g.dense.rows g.dense.cols g.support.positions
    (g.support.positions.map fun k => g.dense.cells.getD k 0)

variable {g : Generated α}

/-- If a nonzero cell is not declared, there is a first one. -/
theorem exists_firstMissed (h : ¬ g.Covered) : ∃ k x, g.FirstMissed k x := by
  classical
  have hmissed : ∃ k x, g.dense.cells[k]? = some x ∧ Element.isZero x = false ∧
      k ∉ g.support.positions := by
    by_contra hnone
    refine h fun k x hx hnonzero => ?_
    by_contra hk
    exact hnone ⟨k, x, hx, hnonzero, hk⟩
  obtain ⟨x, hx, hnonzero, hk⟩ := Nat.find_spec hmissed
  refine ⟨Nat.find hmissed, x, hx, hnonzero, hk, fun j hj y hy hy' => ?_⟩
  by_contra hmem
  exact Nat.find_min hmissed hj ⟨y, hy, hy', hmem⟩

/-! ## The encoding at a declared support -/

/-- What the encoder asks of a declared support. A word must be able to count the row pointers, as
it can for every matrix that has all its cells in memory. -/
structure Declares (g : Generated α) : Prop
    extends Admissible g.dense.rows g.dense.cols g.support.positions.toList where
  rows_lt : g.dense.rows + 1 < wordLimit

omit [Element α] in
theorem Declares.lt_size (h : g.Declares) (hd : g.dense.WellShaped) {k : Nat}
    (hk : k ∈ g.support.positions) : k < g.dense.cells.size := by
  rw [hd.size_eq]
  exact h.inside k (Array.mem_toList_iff.mpr hk)

theorem Declares.indexes (h : g.Declares) : g.encoded.Indexes g.support.positions.toList :=
  Csr.indexes_ofPositions h.toAdmissible

theorem Declares.sound (h : g.Declares) : g.encoded.Sound := by
  refine h.indexes.sound h.cols_pos h.ascending h.inside ?_
  show (g.support.positions.map fun k => g.dense.cells.getD k 0).size = _
  simp

theorem Declares.checkStructure (h : g.Declares) : checkStructure g.dense g.encoded = .ok () :=
  checkStructure_eq_ok_iff.mpr ⟨⟨rfl, rfl⟩, h.sound⟩

/-- The value of a slot is the cell that is declared there. -/
theorem Declares.value_eq (h : g.Declares) (hd : g.dense.WellShaped) {k slot : Nat}
    (hslot : g.support.positions.toList[slot]? = some k) :
    g.dense.cells[k]? = some (g.encoded.value slot) := by
  have hk : k < g.dense.cells.size :=
    h.lt_size hd (Array.mem_toList_iff.mp (List.mem_of_getElem? hslot))
  have hslot' : g.support.positions[slot]? = some k := by simpa using hslot
  have hvalue : g.encoded.value slot = g.dense.cells[k] := by
    show (g.support.positions.map fun k => g.dense.cells.getD k 0).getD slot 0 = _
    simp [Array.getD_eq_getD_getElem?, hslot', hk]
  rw [hvalue, Array.getElem?_eq_getElem hk]

/-- A cell that is declared decodes to itself and any other to zero. -/
theorem Declares.decodes_encoded (h : g.Declares) (hd : g.dense.WellShaped) {cells : Array α}
    (hcells : g.encoded.Decodes cells) {k : Nat} {x : α} (hx : g.dense.cells[k]? = some x) :
    cells[k]? = some (if k ∈ g.support.positions then x else 0) := by
  obtain ⟨i, hi, j, hj, rfl⟩ := hd.exists_coordinates hx
  have hholds : ∀ slot, g.encoded.Holds i j slot ↔
      g.support.positions.toList[slot]? = some (i * g.dense.cols + j) := fun slot =>
    h.indexes.holds_iff h.ascending hi hj
  by_cases hk : i * g.dense.cols + j ∈ g.support.positions
  · obtain ⟨slot, hslot⟩ := List.mem_iff_getElem?.mp (Array.mem_toList_iff.mpr hk)
    have hheld := hcells.held i hi j hj slot ((hholds slot).mpr hslot)
    rw [if_pos hk, ← hx, h.value_eq hd hslot]
    exact hheld
  · rw [if_neg hk]
    refine hcells.empty i hi j hj fun slot hslot => hk ?_
    exact Array.mem_toList_iff.mp (List.mem_of_getElem? ((hholds slot).mp hslot))

variable [LawfulElement α]

/-- A cell reproduces what it decodes to if it is declared or zero. -/
theorem sameValue_declared {k : Nat} {x : α}
    (h : Element.isZero x = false → k ∈ g.support.positions) :
    Element.sameValue x (if k ∈ g.support.positions then x else 0) = true := by
  split
  · exact Element.sameValue_refl x
  · rename_i hk
    rw [Element.sameValue_zero]
    by_contra hnonzero
    exact hk (h (by simpa using hnonzero))

/-- If all nonzero cells are declared, the encoding decodes to the matrix. -/
theorem Declares.checkDecoding_of_covered (h : g.Declares) (hd : g.dense.WellShaped)
    (hcovered : g.Covered) : checkDecoding g.dense g.encoded = .ok (.ok ()) := by
  obtain ⟨cells, hdecode, hcells⟩ := h.sound.decodeLoosely hd.word
  obtain ⟨result, hresult, hok⟩ := checkDecoding_eq (d := g.dense) hdecode
  rw [hresult, hok.mpr]
  intro k x y hx hy
  rw [h.decodes_encoded hd hcells hx, Option.some.injEq] at hy
  rw [← hy]
  exact sameValue_declared (hcovered k x hx)

/-- If a nonzero cell is not declared, the comparison names the first one: it decodes to zero, and
all cells before it are declared or zero. -/
theorem Declares.checkDecoding_of_firstMissed [ReportsZero α] (h : g.Declares)
    (hd : g.dense.WellShaped) {k : Nat} {x : α} (hmissed : g.FirstMissed k x) :
    checkDecoding g.dense g.encoded = .ok (.error (.roundTrip (k / g.dense.cols)
      (k % g.dense.cols) (Element.toBinary64 x) 0)) := by
  obtain ⟨cells, hdecode, hcells⟩ := h.sound.decodeLoosely hd.word
  have hzero : cells[k]? = some 0 := by
    rw [h.decodes_encoded hd hcells hmissed.cell, if_neg hmissed.missed]
  have hdiffers : Element.sameValue x 0 = false := by
    rw [Element.sameValue_zero, hmissed.nonzero]
  rw [← ReportsZero.toBinary64_zero (α := α)]
  refine checkDecoding_first hdecode hmissed.cell hzero hdiffers fun j hj u v hu hv => ?_
  rw [h.decodes_encoded hd hcells hu, Option.some.injEq] at hv
  rw [← hv]
  exact sameValue_declared (hmissed.before j hj u hu)

end Generated

/-! ## The checks of the matrix -/

namespace Dense

variable {d : Dense α} {required : Requirements}

/-- Every check of the matrix that is asked for accepts it. -/
structure Meets (d : Dense α) (required : Requirements) : Prop where
  diagonal : required.diagonal = true → d.checkDiagonal = .ok (.ok ())
  symmetry : required.symmetry = true → d.checkSymmetry = .ok (.ok ())

/-- The error of the first check of the matrix that is asked for and fails. -/
inductive FirstFault (d : Dense α) (required : Requirements) : MatrixError → Prop
  | diagonal {error : MatrixError} : required.diagonal = true →
    d.checkDiagonal = .ok (.error error) → FirstFault d required error
  | symmetry {error : MatrixError} :
    (required.diagonal = true → d.checkDiagonal = .ok (.ok ())) → required.symmetry = true →
      d.checkSymmetry = .ok (.error error) → FirstFault d required error

theorem FirstFault.not_meets {error : MatrixError} (h : d.FirstFault required error) :
    ¬ d.Meets required := by
  intro hmeets
  cases h with
  | diagonal hasked hfails =>
    rw [hmeets.diagonal hasked] at hfails
    cases hfails
  | symmetry _ hasked hfails =>
    rw [hmeets.symmetry hasked] at hfails
    cases hfails

end Dense

/-! ## The report -/

section Report

variable {d : Dense α} {diagonal symmetry : Except MatrixError Unit}

/-- The report on arrays that are laid out soundly. -/
def Report.onSound (required : Requirements)
    (decoding diagonal symmetry : Except MatrixError Unit) : Report :=
  ⟨[(.structural, .passed), (.decodeEquivalence, .ofResult decoding),
    (.diagonalNonzero, .ofAsked required.diagonal diagonal),
    (.symmetry, .ofAsked required.symmetry symmetry)]⟩

/-- Whichever of the checks of a matrix fails first is the first error of the report, and without
one the report is clean. -/
theorem Report.result_onSound (hdiagonal : d.checkDiagonal = .ok diagonal)
    (hsymmetry : d.checkSymmetry = .ok symmetry) (required : Requirements) :
    (d.Meets required ∧ (onSound required (.ok ()) diagonal symmetry).result = .ok ()) ∨
      ∃ error, d.FirstFault required error ∧
        (onSound required (.ok ()) diagonal symmetry).result = .error error := by
  obtain ⟨askDiagonal, askSymmetry⟩ := required
  cases askDiagonal with
  | false =>
    cases askSymmetry with
    | false => exact .inl ⟨⟨nofun, nofun⟩, rfl⟩
    | true =>
      cases symmetry with
      | ok _ => exact .inl ⟨⟨nofun, fun _ => hsymmetry⟩, rfl⟩
      | error error => exact .inr ⟨error, .symmetry nofun rfl hsymmetry, rfl⟩
  | true =>
    cases diagonal with
    | error error => exact .inr ⟨error, .diagonal rfl hdiagonal, rfl⟩
    | ok _ =>
      cases askSymmetry with
      | false => exact .inl ⟨⟨fun _ => hdiagonal, nofun⟩, rfl⟩
      | true =>
        cases symmetry with
        | ok _ => exact .inl ⟨⟨fun _ => hdiagonal, fun _ => hsymmetry⟩, rfl⟩
        | error error => exact .inr ⟨error, .symmetry (fun _ => hdiagonal) rfl hsymmetry, rfl⟩

/-- The report that is clean: every check that is made passes. -/
def Report.clean (required : Requirements) : Report := .onSound required (.ok ()) (.ok ()) (.ok ())

/-- A report without a first error is clean. -/
theorem Report.onSound_eq_clean {required : Requirements} {decoding : Except MatrixError Unit}
    (h : (onSound required decoding diagonal symmetry).result = .ok ()) :
    onSound required decoding diagonal symmetry = .clean required := by
  obtain ⟨askDiagonal, askSymmetry⟩ := required
  cases decoding with
  | error error => cases h
  | ok _ =>
    cases askDiagonal <;> cases askSymmetry <;> cases diagonal <;> cases symmetry <;>
      first | rfl | cases h

end Report

/-! ## The gate -/

variable {g : Generated α} {required : Requirements}

/-- All lookups of an admissible support succeed. -/
theorem Generated.Declares.mapM_lookup {α : Type} [Element α] {g : Generated α} (h : g.Declares)
    (hd : g.dense.WellShaped) {lookup : Nat → Except AccessFault α}
    (hlookup : ∀ k x, g.dense.cells[k]? = some x → lookup k = .ok x) :
    g.support.positions.mapM lookup =
      .ok (g.support.positions.map fun k => g.dense.cells.getD k 0) := by
  have heach : ∀ k ∈ g.support.positions.toList, lookup k = .ok (g.dense.cells.getD k 0) := by
    intro k hk
    have hlt := h.lt_size hd (Array.mem_toList_iff.mp hk)
    rw [hlookup k _ (Array.getElem?_eq_getElem hlt), Array.getD_eq_getD_getElem?,
      Array.getElem?_eq_getElem hlt, Option.getD_some]
  rw [Array.mapM_eq_mapM_toList, mapM_eq_ok heach, ← Array.toList_map]
  rfl

/-- On admissible input the gate goes by the report on the encoding. -/
theorem certify_eq (h : g.Declares) (hd : g.dense.WellShaped) {report : Report}
    (hreport : validate g.dense g.encoded required = .ok report) :
    certify (g.dense.rows, g.dense.cols) g required =
      .ok ((report.result.mapError fun first => .validation first report).map fun _ =>
        ⟨g.dense, g.encoded, report⟩) := by
  have hcheck := InputDefect.first?_eq_none_iff.mpr h.toAdmissible
  rw [certify, Csr.encode_of_countable hcheck h.rows_lt]
  simp only [bind_assoc]
  rw [h.mapM_lookup hd fun k x hx => by rw [hx]]
  show validate g.dense g.encoded required >>= _ = _
  rw [hreport]
  simp only [bind, Except.bind]
  cases report.result <;> rfl

/-- A defect of the input is the error of the gate. -/
theorem certify_of_defect {shape : Nat × Nat} {defect : InputDefect}
    (h : InputDefect.first? shape.1 shape.2 g.support.positions = some defect) :
    certify shape g required = .ok (.error (.encoding (.input defect))) := by
  rw [certify, Csr.encode_of_defect h]
  rfl

/-- An index must be able to count the columns and the positions that are declared. -/
theorem certify_of_uncountable {rows cols : Nat} (hrows : rows ≠ 0) (hcols : cols ≠ 0)
    (hword : rows * cols < wordLimit)
    (h : indexLimit ≤ cols ∨ indexLimit ≤ g.support.positions.size) :
    ∃ n, certify (rows, cols) g required =
      .ok (.error (.encoding (.input (.indexOverflow n)))) := by
  have hdefect : ∃ n, InputDefect.first? rows cols g.support.positions =
      some (.indexOverflow n) := by
    unfold InputDefect.first?
    rw [if_neg (by omega), if_neg (by omega)]
    by_cases hlimit : indexLimit ≤ cols
    · rw [if_pos hlimit]
      exact ⟨_, rfl⟩
    · rw [if_neg hlimit, if_pos (h.resolve_left hlimit)]
      exact ⟨_, rfl⟩
  obtain ⟨n, hn⟩ := hdefect
  exact ⟨n, certify_of_defect hn⟩

/-- What passes the gate was encoded in the shape that was declared, and the report is clean. -/
theorem of_certify_eq_ok {shape : Nat × Nat} {c : Certified α}
    (h : certify shape g required = .ok (.ok c)) :
    (InputDefect.first? shape.1 shape.2 g.support.positions = none ∧ shape.1 + 1 < wordLimit) ∧
      (c.csr.rows = shape.1 ∧ c.csr.cols = shape.2) ∧
      validate g.dense c.csr required = .ok c.report ∧ c.report.result = .ok () := by
  cases hcheck : InputDefect.first? shape.1 shape.2 g.support.positions with
  | some defect =>
    rw [certify_of_defect hcheck] at h
    cases h
  | none =>
    have hrows : shape.1 + 1 < wordLimit := by
      by_contra hmany
      rw [certify, Csr.encode_of_overflow hcheck (Nat.not_lt.mp hmany)] at h
      cases h
    rw [certify, Csr.encode_of_countable hcheck hrows] at h
    simp only [bind_assoc, bind_eq_ok] at h
    obtain ⟨values, -, outcome, houtcome, m, hm, hrest⟩ := h
    cases houtcome
    cases hm
    obtain ⟨report, hreport, hresult⟩ := bind_eq_ok.mp hrest
    split at hresult
    · cases hresult
    · rename_i hclean
      cases hresult
      exact ⟨⟨rfl, hrows⟩, ⟨rfl, rfl⟩, hreport, hclean⟩

/-- A report has no first error iff it is clean. -/
theorem Report.result_eq_ok_iff {report : Report} :
    report.result = .ok () ↔ report.isOk = true := by
  rw [result, isOk]
  cases report.failures <;> simp

/-- What passes the gate has the shape of the matrix. -/
theorem shape_eq_of_certify_eq_ok {shape : Nat × Nat} (hd : g.dense.WellShaped) {c : Certified α}
    (h : certify shape g required = .ok (.ok c)) : shape = (g.dense.rows, g.dense.cols) := by
  obtain ⟨-, ⟨hrows, hcols⟩, hreport, hclean⟩ := of_certify_eq_ok h
  obtain ⟨_, _, _, -, -, -, hmade⟩ := validate_eq_ok hd c.csr required
  rw [hmade] at hreport
  have hok := Report.result_eq_ok_iff.mp hclean
  simp only [← Except.ok.inj hreport, Report.isOk_iff, List.forall_mem_cons,
    Status.error?_ofResult] at hok
  obtain ⟨⟨hrows', hcols'⟩, -⟩ := checkStructure_eq_ok_iff.mp hok.1
  rw [← hrows', ← hcols', hrows, hcols]

/-- The report on the encoding of a matrix at an admissible support. -/
theorem Generated.Declares.validate_eq (h : g.Declares) (hd : g.dense.WellShaped)
    (required : Requirements) :
    ∃ decoding diagonal symmetry, checkDecoding g.dense g.encoded = .ok decoding ∧
      g.dense.checkDiagonal = .ok diagonal ∧ g.dense.checkSymmetry = .ok symmetry ∧
      validate g.dense g.encoded required =
        .ok (Report.onSound required decoding diagonal symmetry) := by
  obtain ⟨decoding, diagonal, symmetry, hdecoding, hdiagonal, hsymmetry, hreport⟩ :=
    validate_eq_ok hd g.encoded required
  rw [h.checkStructure] at hreport
  exact ⟨decoding, diagonal, symmetry, hdecoding, hdiagonal, hsymmetry, hreport⟩

/-- The error that blames a cell which decodes to zero. -/
def Generated.missedError (g : Generated α) (k : Nat) (x : α) : MatrixError :=
  .roundTrip (k / g.dense.cols) (k % g.dense.cols) (Element.toBinary64 x) 0

section Verdict

variable [LawfulElement α] [ReportsZero α]

/-- A support that misses a nonzero cell is refused for the first one that it misses. -/
theorem Generated.Declares.certify_of_not_covered (h : g.Declares) (hd : g.dense.WellShaped)
    (hmissing : ¬ g.Covered) (required : Requirements) :
    ∃ k x report, g.FirstMissed k x ∧
      certify (g.dense.rows, g.dense.cols) g required =
        .ok (.error (.validation (g.missedError k x) report)) ∧
      report.status .structural = .passed ∧
      report.failures.head? = some (.decodeEquivalence, g.missedError k x) := by
  obtain ⟨k, x, hfirst⟩ := exists_firstMissed hmissing
  obtain ⟨_, diagonal, symmetry, hdecoding, -, -, hreport⟩ := h.validate_eq hd required
  rw [h.checkDecoding_of_firstMissed hd hfirst] at hdecoding
  cases hdecoding
  exact ⟨k, x, _, hfirst, certify_eq h hd hreport, rfl, rfl⟩

omit [ReportsZero α] in
/-- A support that misses none passes the gate, unless a check of the matrix fails. -/
theorem Generated.Declares.certify_of_covered (h : g.Declares) (hd : g.dense.WellShaped)
    (hcovered : g.Covered) (required : Requirements) :
    (g.dense.Meets required ∧ ∃ report, certify (g.dense.rows, g.dense.cols) g required =
      .ok (.ok ⟨g.dense, g.encoded, report⟩)) ∨
    ∃ error report, g.dense.FirstFault required error ∧
      certify (g.dense.rows, g.dense.cols) g required =
        .ok (.error (.validation error report)) := by
  obtain ⟨_, diagonal, symmetry, hdecoding, hdiagonal, hsymmetry, hreport⟩ :=
    h.validate_eq hd required
  rw [h.checkDecoding_of_covered hd hcovered] at hdecoding
  cases hdecoding
  have hgate := certify_eq h hd hreport
  rcases Report.result_onSound hdiagonal hsymmetry required with
    ⟨hmeets, hresult⟩ | ⟨error, hfault, hresult⟩
  · rw [hresult] at hgate
    exact .inl ⟨hmeets, _, hgate⟩
  · rw [hresult] at hgate
    exact .inr ⟨error, _, hfault, hgate⟩

omit [LawfulElement α] [ReportsZero α] in
/-- The report on an encoding that passes is clean. -/
theorem Generated.Declares.report_eq (h : g.Declares) (hd : g.dense.WellShaped) {report : Report}
    (hcertify : certify (g.dense.rows, g.dense.cols) g required =
      .ok (.ok ⟨g.dense, g.encoded, report⟩)) : report = .clean required := by
  obtain ⟨-, -, hreport, hclean⟩ := of_certify_eq_ok hcertify
  obtain ⟨_, _, _, -, -, -, hmade⟩ := h.validate_eq hd required
  rw [hmade] at hreport
  cases hreport
  exact Report.onSound_eq_clean hclean

omit [ReportsZero α] in
/-- A support that misses no nonzero cell of a matrix that meets what is asked for passes. -/
theorem Generated.Declares.certify_of_meets (h : g.Declares) (hd : g.dense.WellShaped)
    (hcovered : g.Covered) (hmeets : g.dense.Meets required) :
    certify (g.dense.rows, g.dense.cols) g required =
      .ok (.ok ⟨g.dense, g.encoded, .clean required⟩) := by
  obtain ⟨-, report, hgate⟩ | ⟨_, _, hfault, -⟩ := h.certify_of_covered hd hcovered required
  · rw [hgate, h.report_eq hd hgate]
  · exact absurd hmeets hfault.not_meets

/-- What passes the gate is the matrix and its encoding with a clean report, at a support that the
encoder takes and that covers the nonzero cells. -/
theorem accepted_of_certify_eq_ok {shape : Nat × Nat} (hd : g.dense.WellShaped) {c : Certified α}
    (hcertify : certify shape g required = .ok (.ok c)) :
    g.Declares ∧ g.Covered ∧ c = ⟨g.dense, g.encoded, .clean required⟩ := by
  obtain rfl := shape_eq_of_certify_eq_ok hd hcertify
  obtain ⟨hcheck, hrows⟩ := (of_certify_eq_ok hcertify).1
  have h : g.Declares := ⟨InputDefect.first?_eq_none_iff.mp hcheck, hrows⟩
  have hcovered : g.Covered := by
    by_contra hmissing
    obtain ⟨_, _, _, -, hrefused, -⟩ := h.certify_of_not_covered hd hmissing required
    rw [hcertify] at hrefused
    cases hrefused
  obtain ⟨-, report, hgate⟩ | ⟨_, _, -, hrefused⟩ :=
    h.certify_of_covered hd hcovered required
  · rw [hcertify] at hgate
    cases hgate
    rw [h.report_eq hd hcertify]
    exact ⟨h, hcovered, rfl⟩
  · rw [hcertify] at hrefused
    cases hrefused

/-- What passes the gate decodes to the matrix. -/
theorem decodes_of_certify_eq_ok {shape : Nat × Nat} (hd : g.dense.WellShaped) {c : Certified α}
    (hcertify : certify shape g required = .ok (.ok c)) :
    c.dense = g.dense ∧ (c.csr.rows = g.dense.rows ∧ c.csr.cols = g.dense.cols) ∧
      c.csr.checkLayout = .ok () ∧
      ∃ cells, c.csr.toDense = .ok (.ok ⟨g.dense.rows, g.dense.cols, cells⟩) ∧
        cells.size = g.dense.cells.size ∧
        ∀ (k : Nat) (x : α), g.dense.cells[k]? = some x → ∃ y, cells[k]? = some y ∧
          Element.sameValue x y = true ∧ (Element.isZero x = false → y = x) := by
  obtain ⟨h, hcovered, rfl⟩ := accepted_of_certify_eq_ok hd hcertify
  obtain ⟨cells, hdecode, hcells⟩ := h.sound.toDense hd.word
  refine ⟨rfl, ⟨rfl, rfl⟩, Csr.checkLayout_eq_ok_iff.mpr h.sound, cells, hdecode,
    hcells.size_eq.trans hd.size_eq.symm, fun k x hx => ?_⟩
  refine ⟨_, h.decodes_encoded hd hcells hx, Generated.sameValue_declared (hcovered k x hx),
    fun hnonzero => ?_⟩
  rw [if_pos (hcovered k x hx hnonzero)]

/-- **The gate accepts exactly the right inputs.** Input that the encoder refuses is refused with
the encoder's error. In the shape of the matrix, an admissible support passes iff it covers the
nonzero cells and the matrix meets what is asked for. A support that misses a nonzero cell is
refused for the first such cell, although the layout passes, and otherwise the first check of the
matrix that fails is the reason. No other shape passes, and what passes decodes to the matrix. The
row pointers of a matrix that has all its cells in memory can be counted by a word. -/
theorem certify_verdict (hd : g.dense.WellShaped) (shape : Nat × Nat) (required : Requirements) :
    (∀ defect, InputDefect.first? shape.1 shape.2 g.support.positions = some defect →
      (∀ lookup : Nat → Except AccessFault α,
        Csr.encode shape.1 shape.2 g.support.positions lookup =
          .ok (.ok (.error (.input defect)))) ∧
      certify shape g required = .ok (.error (.encoding (.input defect)))) ∧
    (shape = (g.dense.rows, g.dense.cols) → shape.1 + 1 < wordLimit →
      InputDefect.first? shape.1 shape.2 g.support.positions = none →
      ∃ result, certify shape g required = .ok result ∧
        ((∃ c, result = .ok c) ↔ g.Covered ∧ g.dense.Meets required) ∧
        (¬ g.Covered → ∃ k x report, g.FirstMissed k x ∧
          result = .error (.validation (g.missedError k x) report) ∧
          report.status .structural = .passed ∧
          report.failures.head? = some (.decodeEquivalence, g.missedError k x)) ∧
        (g.Covered → ¬ g.dense.Meets required → ∃ error report,
          g.dense.FirstFault required error ∧ result = .error (.validation error report))) ∧
    (shape ≠ (g.dense.rows, g.dense.cols) → ∀ c, certify shape g required ≠ .ok (.ok c)) ∧
    ∀ c, certify shape g required = .ok (.ok c) →
      c.dense = g.dense ∧ (c.csr.rows = g.dense.rows ∧ c.csr.cols = g.dense.cols) ∧
        c.csr.checkLayout = .ok () ∧
        ∃ cells, c.csr.toDense = .ok (.ok ⟨g.dense.rows, g.dense.cols, cells⟩) ∧
          cells.size = g.dense.cells.size ∧
          ∀ (k : Nat) (x : α), g.dense.cells[k]? = some x → ∃ y, cells[k]? = some y ∧
            Element.sameValue x y = true ∧ (Element.isZero x = false → y = x) := by
  refine ⟨fun defect hdefect => ⟨fun lookup => ?_, certify_of_defect hdefect⟩, ?_,
    fun hshape c hc => hshape (shape_eq_of_certify_eq_ok hd hc),
    fun c => decodes_of_certify_eq_ok hd⟩
  · rw [Csr.encode_of_defect hdefect]
    rfl
  · rintro rfl hrows hcheck
    have h : g.Declares := ⟨InputDefect.first?_eq_none_iff.mp hcheck, hrows⟩
    by_cases hcovered : g.Covered
    · obtain ⟨hmeets, report, hgate⟩ | ⟨error, report, hfault, hgate⟩ :=
        h.certify_of_covered hd hcovered required
      · exact ⟨_, hgate, ⟨fun _ => ⟨hcovered, hmeets⟩, fun _ => ⟨_, rfl⟩⟩,
          fun hmissing => absurd hcovered hmissing, fun _ hfails => absurd hmeets hfails⟩
      · refine ⟨_, hgate, ⟨fun hok => absurd hok not_error_eq_ok, fun hmeets => ?_⟩,
          fun hmissing => absurd hcovered hmissing, fun _ _ => ⟨error, report, hfault, rfl⟩⟩
        exact absurd hmeets.2 hfault.not_meets
    · obtain ⟨k, x, report, hfirst, hgate, hstructure, hhead⟩ :=
        h.certify_of_not_covered hd hcovered required
      exact ⟨_, hgate,
        ⟨fun hok => absurd hok not_error_eq_ok, fun hmeets => absurd hmeets.1 hcovered⟩,
        fun _ => ⟨k, x, report, hfirst, rfl, hstructure, hhead⟩, fun hall => absurd hall hcovered⟩

end Verdict

/-- A NaN that is left out is the first cell missed, for the negative zero before it decodes to a
zero. With both of them declared the matrix passes. -/
theorem certify_verdict_nan :
    let one : Binary64 := ⟨0x3ff0000000000000⟩
    let d : Dense Binary64 := ⟨2, 2, #[one, ⟨0x8000000000000000⟩, .nan, one]⟩
    d.WellShaped ∧ InputDefect.first? 2 2 #[0, 3] = none ∧
      InputDefect.first? 2 2 #[0, 1, 2, 3] = none ∧
      (∃ report, certify (2, 2) ⟨d, ⟨#[0, 3]⟩⟩ .matrixVector =
        .ok (.error (.validation (.roundTrip 1 0 .nan 0) report)) ∧
        report.status .structural = .passed) ∧
      ∃ c, certify (2, 2) ⟨d, ⟨#[0, 1, 2, 3]⟩⟩ .matrixVector = .ok (.ok c) := by
  intro one d
  have hd : d.WellShaped := ⟨rfl, by decide⟩
  have hcheck : InputDefect.first? 2 2 #[0, 3] = none := by decide
  have hcheck' : InputDefect.first? 2 2 #[0, 1, 2, 3] = none := by decide
  refine ⟨hd, hcheck, hcheck', ?_, ?_⟩
  · obtain ⟨-, hsame, -, -⟩ := certify_verdict (g := ⟨d, ⟨#[0, 3]⟩⟩) hd (2, 2) .matrixVector
    obtain ⟨_, hgate, -, hmissing, -⟩ := hsame rfl (by decide) hcheck
    have hmissed : ¬ Generated.Covered ⟨d, ⟨#[0, 3]⟩⟩ := fun h =>
      absurd (h 2 .nan rfl rfl) (by simp)
    obtain ⟨k, x, report, hfirst, rfl, hstructure, -⟩ := hmissing hmissed
    have hlt : k < 4 := (Array.getElem?_eq_some_iff.mp hfirst.cell).1
    have hnot : k ≠ 0 ∧ k ≠ 3 := by simpa using hfirst.missed
    obtain rfl | rfl : k = 1 ∨ k = 2 := by omega
    · -- of the two cells that are not declared this one is zero
      cases hfirst.cell
      exact absurd hfirst.nonzero (by decide)
    · cases hfirst.cell
      have herror : Generated.missedError ⟨d, ⟨#[0, 3]⟩⟩ 2 Binary64.nan =
          .roundTrip 1 0 .nan 0 := by decide +kernel
      rw [← herror]
      exact ⟨report, hgate, hstructure⟩
  · obtain ⟨-, hsame, -, -⟩ :=
      certify_verdict (g := ⟨d, ⟨#[0, 1, 2, 3]⟩⟩) hd (2, 2) .matrixVector
    obtain ⟨_, hgate, hpasses, -⟩ := hsame rfl (by decide) hcheck'
    have hcovered : Generated.Covered ⟨d, ⟨#[0, 1, 2, 3]⟩⟩ := by
      intro k x hx _
      have hlt : k < 4 := (Array.getElem?_eq_some_iff.mp hx).1
      have hall : ∀ j < 4, j ∈ [0, 1, 2, 3] := by decide
      exact Array.mem_toList_iff.mp (hall k hlt)
    obtain ⟨c, rfl⟩ := hpasses.mpr ⟨hcovered, ⟨nofun, nofun⟩⟩
    exact ⟨c, hgate⟩

end SparseDatasets
