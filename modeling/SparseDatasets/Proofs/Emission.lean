import SparseDatasets.Dataset.ConjugateGradient
import SparseDatasets.Dataset.MatrixVector
import SparseDatasets.Proofs.Element
import SparseDatasets.Proofs.Fallible
import SparseDatasets.Proofs.Listing

/-!
# Datasets read back from their data sections

The layout of a dataset is the list of its symbols with the words that each of them holds. A data
section is read back as that layout, so what was emitted can be recovered from the text: two
datasets with one text agree on everything that is emitted.

- `ColumnEncoding.scaled`: what a column is written as; `ColumnEncoding.apply_byteOffset`.
- `MatrixVector.layout`, `ConjugateGradient.layout`: the symbols of a dataset and their words.
- `Script.lines_of_csr`: the lines of a data section with a compressed matrix in it.
- `Script.reads`: a data section is read back as the layout of its symbols.
- `MatrixVector.eq_of_layout`, `ConjugateGradient.agree_of_layout`: what a layout tells.
- `emission_lossless`: **emission loses nothing that it emits.**
- `emission_without_matrices`: a size that no configuration may ask for.
-/

namespace SparseDatasets

/-! ## Columns -/

namespace ColumnEncoding

/-- The number that a column is written as. -/
def scaled : ColumnEncoding → UInt32 → Nat
  | logical, col => col.toNat
  | byteOffset elementBytes, col => col.toNat * elementBytes.toNat

/-- Columns are told apart by what they are written as, unless they are scaled by zero. -/
theorem scaled_injective {encoding : ColumnEncoding} (h : encoding ≠ byteOffset 0) :
    Function.Injective encoding.scaled := by
  intro a b hab
  cases encoding with
  | logical => exact UInt32.toNat_inj.mp hab
  | byteOffset elementBytes =>
    have hpos : 0 < elementBytes.toNat := by
      by_contra hnot
      have hzero : elementBytes.toNat = 0 := Nat.eq_zero_of_not_pos hnot
      exact h (congrArg byteOffset (UInt32.toNat_inj.mp hzero))
    exact UInt32.toNat_inj.mp (Nat.eq_of_mul_eq_mul_right hpos hab)

/-- Either all products are taken, or the first column whose product is too great is refused. -/
theorem apply_byteOffset (elementBytes : UInt32) (columns : Array UInt32) :
    (byteOffset elementBytes).apply columns =
      (columns.toList.find? fun col => ¬ col.toNat * elementBytes.toNat < indexLimit).elim
        (.ok (columns.map (· * elementBytes))) fun col =>
          .error (.columnOverflow col elementBytes) := by
  rw [apply, Array.mapM_eq_mapM_toList, mapM_ite]
  cases columns.toList.find? fun col => ¬ col.toNat * elementBytes.toNat < indexLimit with
  | none =>
    show Except.ok (columns.toList.map (· * elementBytes)).toArray = _
    rw [← Array.toList_map]
    rfl
  | some col => rfl

/-- Encoded columns are the numbers that the columns are to be written as: no product wraps. -/
theorem apply_eq_ok {encoding : ColumnEncoding} {columns encoded : Array UInt32}
    (h : encoding.apply columns = .ok encoded) :
    encoded.toList.map UInt32.toNat = columns.toList.map encoding.scaled := by
  cases encoding with
  | logical =>
    cases h
    rfl
  | byteOffset elementBytes =>
    rw [apply_byteOffset] at h
    cases hfind : columns.toList.find? fun col =>
        ¬ col.toNat * elementBytes.toNat < indexLimit with
    | some col =>
      rw [hfind] at h
      cases h
    | none =>
      rw [hfind] at h
      cases h
      rw [Array.toList_map, List.map_map]
      refine List.map_congr_left fun col hcol => ?_
      -- the product fits, so the multiplication of indices does not wrap
      have hfits : col.toNat * elementBytes.toNat < indexLimit := by
        by_contra hnot
        exact List.find?_eq_none.mp hfind col hcol (decide_eq_true hnot)
      exact (UInt32.toNat_mul ..).trans (Nat.mod_eq_of_lt hfits)

end ColumnEncoding

/-! ## Layouts -/

/-- The words of doubles, two for each. -/
def doubleWords (xs : Array Binary64) : List Nat := xs.toList.flatMap fun x => halves x.bits.toNat

theorem doubleWords_injective : Function.Injective doubleWords := by
  intro xs ys h
  have hwords : (xs.toList.map fun x => x.bits.toNat).flatMap halves =
      (ys.toList.map fun y => y.bits.toNat).flatMap halves := by
    rwa [List.flatMap_map, List.flatMap_map]
  have hbits : Function.Injective fun x : Binary64 => x.bits.toNat := fun x y hxy =>
    Binary64.bits_inj.mp (UInt64.toNat_inj.mp hxy)
  exact Array.toList_inj.mp (hbits.list_map (flatMap_halves_injective hwords))

/-- The symbols of a dataset for the product of a matrix and a vector, and their words. -/
def MatrixVector.layout (encoding : ColumnEncoding) (dataset : MatrixVector Binary64) :
    List (String × List Nat) :=
  let m := dataset.csr
  [("R", halves m.rows), ("C", halves m.cols), ("NZ", halves m.nnz),
    ("CSR_PROW", m.rowPtr.toList.map UInt32.toNat),
    ("CSR_INDEX", m.colIdx.toList.map encoding.scaled), ("CSR_DATA", doubleWords m.values),
    ("CSR_IN_VECTOR", doubleWords dataset.input),
    ("CSR_OUT_VECTOR", List.replicate (2 * m.rows) 0)]

/-- The symbols of a dataset for the conjugate gradient method, and their words, if each of the two
matrices that the solvers work on has a given number of cells. -/
def ConjugateGradient.layout (encoding : ColumnEncoding) (cells : Nat)
    (dataset : ConjugateGradient Binary64) : List (String × List Nat) :=
  let m := dataset.csr
  let vector := List.replicate (2 * dataset.size) 0
  let matrix := List.replicate (2 * cells) 0
  [("size", halves dataset.size), ("step", halves dataset.steps.toNat),
    ("sparsity", halves dataset.sparsity.bits.toNat), ("A", doubleWords dataset.operand.cells),
    ("b", doubleWords dataset.rhs), ("x", vector), ("r", vector), ("p", vector), ("Ax", matrix),
    ("Ap", matrix), ("A_PROW", m.rowPtr.toList.map UInt32.toNat),
    ("A_IDX", m.colIdx.toList.map encoding.scaled), ("A_DATA", doubleWords m.values)]

/-- The figures of a dataset are machine words. -/
structure MatrixVector.Addressable (dataset : MatrixVector Binary64) : Prop where
  rows_lt : dataset.csr.rows < wordLimit
  cols_lt : dataset.csr.cols < wordLimit
  nnz_lt : dataset.csr.nnz < wordLimit

theorem MatrixVector.wellNamed (encoding : ColumnEncoding) (dataset : MatrixVector Binary64) :
    WellNamed ((dataset.layout encoding).map Prod.fst) := by
  show WellNamed ["R", "C", "NZ", "CSR_PROW", "CSR_INDEX", "CSR_DATA", "CSR_IN_VECTOR",
    "CSR_OUT_VECTOR"]
  exact ⟨by decide, by decide, by decide⟩

theorem ConjugateGradient.wellNamed (encoding : ColumnEncoding) (cells : Nat)
    (dataset : ConjugateGradient Binary64) :
    WellNamed ((dataset.layout encoding cells).map Prod.fst) := by
  show WellNamed ["size", "step", "sparsity", "A", "b", "x", "r", "p", "Ax", "Ap", "A_PROW",
    "A_IDX", "A_DATA"]
  exact ⟨by decide, by decide, by decide⟩

/-- The first of the two matrices takes two words for each of its cells. -/
theorem Reads.length_wordsBelow {lines : List String} {encoding : ColumnEncoding} {cells : Nat}
    {dataset : ConjugateGradient Binary64} (h : Reads lines (dataset.layout encoding cells)) :
    (wordsBelow (label "Ax") lines).length = 2 * cells := by
  have hentry : ("Ax", List.replicate (2 * cells) 0) ∈ dataset.layout encoding cells := by
    simp [ConjugateGradient.layout]
  rw [h.words _ hentry, List.length_replicate]

/-! ## Symbols and their words -/

namespace Symbol

/-- A value of sixty-four bits is written as two words. -/
theorem shows_scalar {α : Type} [LittleEndian α] {name : String} {x : α}
    (hwidth : LittleEndian.width α = 8) (hx : LittleEndian.word x < UInt64.size) :
    (scalar name x).Shows (name, halves (LittleEndian.word x)) where
  name := rfl
  alignment := show '\n' ∉ "8".toList from by decide
  bytes := by
    show bytesOfNat (LittleEndian.width α) _ = _
    rw [hwidth, bytesOfNat_eight]
  words _ hw := lt_of_mem_halves hx hw

/-- A machine word is written as its two halves. -/
theorem shows_figure {name : String} {n : Nat} (h : n < wordLimit) :
    (scalar name n.toUInt64).Shows (name, halves n) := by
  have hword : LittleEndian.word n.toUInt64 = n := Nat.mod_eq_of_lt h
  have hshows : (scalar name n.toUInt64).Shows (name, halves (LittleEndian.word n.toUInt64)) :=
    shows_scalar rfl (hword.symm ▸ h)
  rwa [hword] at hshows

variable {alignment name : String} (halign : '\n' ∉ alignment.toList)

include halign

/-- Indices are written as one word each. -/
theorem shows_indices (xs : Array UInt32) :
    (array alignment name xs).Shows (name, xs.toList.map UInt32.toNat) where
  name := rfl
  alignment := halign
  bytes := by
    rw [List.flatMap_map]
    rfl
  words := by
    intro w hw
    obtain ⟨x, -, rfl⟩ := List.mem_map.mp hw
    exact x.toNat_lt

/-- Doubles are written as two words each. -/
theorem shows_doubles (xs : Array Binary64) :
    (array alignment name xs).Shows (name, doubleWords xs) where
  name := rfl
  alignment := halign
  bytes := by
    show xs.toList.flatMap (fun x => bytesOfNat 8 x.bits.toNat) = _
    simp only [doubleWords, List.flatMap_assoc, bytesOfNat_eight]
  words := by
    intro w hw
    obtain ⟨x, -, hx⟩ := List.mem_flatMap.mp hw
    exact lt_of_mem_halves x.bits.toNat_lt hx

/-- Zeros are written as two zero words each. -/
theorem shows_zeros (n : Nat) :
    (array alignment name (Array.replicate n (0 : Binary64))).Shows
      (name, List.replicate (2 * n) 0) := by
  have hwords : doubleWords (Array.replicate n (0 : Binary64)) = List.replicate (2 * n) 0 := by
    rw [doubleWords, Array.toList_replicate, List.flatMap_replicate, Nat.mul_comm]
    show (List.replicate n (List.replicate 2 0)).flatten = _
    exact List.flatten_replicate_replicate
  rw [← hwords]
  exact shows_doubles halign _

end Symbol

/-! ## Scripts -/

/-- The symbols of a compressed matrix whose columns have been encoded. -/
def Csr.symbols {α : Type} [LittleEndian α] (alignment : String) (names : CsrNames)
    (encoded : Array UInt32) (m : Csr α) : List Symbol :=
  [.array alignment names.rowPtr m.rowPtr, .array alignment names.colIdx encoded,
    .array alignment names.values m.values]

namespace Script

/-- Symbols in front of other scripts. -/
theorem sequence_symbols (symbols : List Symbol) (scripts : List Script) :
    sequence (symbols.map symbol ++ scripts) =
      ⟨symbols.flatMap Symbol.lines ++ (sequence scripts).lines, (sequence scripts).error?⟩ := by
  induction symbols with
  | nil => rfl
  | cons s symbols ih =>
    show (symbol s).andThen (sequence (symbols.map symbol ++ scripts)) = _
    rw [ih, List.flatMap_cons, List.append_assoc]
    rfl

/-- Symbols alone. -/
theorem sequence_map_symbol (symbols : List Symbol) :
    sequence (symbols.map symbol) = ⟨symbols.flatMap Symbol.lines, none⟩ := by
  have h := sequence_symbols symbols []
  rw [List.append_nil] at h
  rw [h]
  show (⟨symbols.flatMap Symbol.lines ++ [], none⟩ : Script) = _
  rw [List.append_nil]

variable {α : Type} [LittleEndian α] {config : EmissionConfig} {names : CsrNames} {m : Csr α}

/-- A column that does not fit stops the emission of a matrix before its first symbol. -/
theorem csr_of_error {error : DatasetError}
    (h : config.columnEncoding.apply m.colIdx = .error error) :
    csr config names m = fail error := by
  rw [csr, h]

/-- When all columns fit the symbols of the matrix are written. -/
theorem csr_of_ok {encoded : Array UInt32}
    (h : config.columnEncoding.apply m.colIdx = .ok encoded) :
    csr config names m =
      ⟨(m.symbols config.alignment names encoded).flatMap Symbol.lines, none⟩ := by
  rw [csr, h]
  exact sequence_map_symbol (m.symbols config.alignment names encoded)

/-- A data section with a compressed matrix among its symbols. Unless a column of the matrix does
not fit, the lines are those of the symbols. -/
theorem lines_of_csr {front back : List Symbol} {script : Script}
    (hscript : script =
      sequence (dataSection :: (front.map symbol ++ csr config names m :: back.map symbol)))
    (h : script.error? = none) :
    ∃ encoded, config.columnEncoding.apply m.colIdx = .ok encoded ∧
      script.lines = dataSection.lines ++
        (front ++ m.symbols config.alignment names encoded ++ back).flatMap Symbol.lines := by
  -- the matrix and what stands behind it
  let rest := (csr config names m).andThen (sequence (back.map symbol))
  have hrest : script = dataSection.andThen
      ⟨front.flatMap Symbol.lines ++ rest.lines, rest.error?⟩ := by
    rw [hscript]
    exact congrArg dataSection.andThen (sequence_symbols front _)
  cases hencoded : config.columnEncoding.apply m.colIdx with
  | error error =>
    have hfail : rest.error? = some error := by
      show ((csr config names m).andThen _).error? = _
      rw [csr_of_error hencoded]
      rfl
    rw [hrest] at h
    exact absurd (hfail.symm.trans h) (by simp)
  | ok encoded =>
    have hlines : rest.lines =
        (m.symbols config.alignment names encoded ++ back).flatMap Symbol.lines := by
      show ((csr config names m).andThen _).lines = _
      rw [csr_of_ok hencoded, sequence_map_symbol, List.flatMap_append]
      rfl
    refine ⟨encoded, rfl, ?_⟩
    rw [hrest, List.append_assoc, List.flatMap_append, ← hlines]
    rfl

/-- A script that consists of the symbols of a data section is read back as their layout. -/
theorem reads {script : Script} {symbols : List Symbol} {layout : List (String × List Nat)}
    (hlines : script.lines = dataSection.lines ++ symbols.flatMap Symbol.lines)
    (h : List.Forall₂ Symbol.Shows symbols layout) (hnames : WellNamed (layout.map Prod.fst)) :
    Reads (textLines script.text) layout := by
  have hnewline : ∀ line ∈ script.lines, '\n' ∉ line.toList := by
    intro line hline
    rw [hlines, List.mem_append] at hline
    rcases hline with hline | hline
    · rw [List.mem_singleton.mp hline]
      decide
    · exact newline_not_mem_lines h hnames hline
  rw [textLines_text hnewline, hlines]
  exact reads_lines h hnames (by decide)

end Script

variable {config : EmissionConfig}

namespace MatrixVector

/-- The names of the three arrays of the matrix. -/
def csrNames : CsrNames := ⟨"CSR_PROW", "CSR_INDEX", "CSR_DATA"⟩

/-- The symbols in front of the matrix. -/
def front (dataset : MatrixVector Binary64) : List Symbol :=
  [.scalar "R" dataset.csr.rows.toUInt64, .scalar "C" dataset.csr.cols.toUInt64,
    .scalar "NZ" dataset.csr.nnz.toUInt64]

/-- The symbols behind the matrix. -/
def back (alignment : String) (dataset : MatrixVector Binary64) : List Symbol :=
  [.array alignment "CSR_IN_VECTOR" dataset.input,
    .array alignment "CSR_OUT_VECTOR" (Array.replicate dataset.csr.rows (0 : Binary64))]

variable {dataset : MatrixVector Binary64}

theorem script_eq : dataset.script config = .sequence (.dataSection ::
    (dataset.front.map .symbol ++ .csr config csrNames dataset.csr ::
      (dataset.back config.alignment).map .symbol)) := rfl

/-- The symbols of a dataset hold the words of its layout. -/
theorem Addressable.shows_symbols (hd : dataset.Addressable)
    (halign : '\n' ∉ config.alignment.toList) {encoded : Array UInt32}
    (hencoded : config.columnEncoding.apply dataset.csr.colIdx = .ok encoded) :
    List.Forall₂ Symbol.Shows (dataset.front ++
        dataset.csr.symbols config.alignment csrNames encoded ++ dataset.back config.alignment)
      (dataset.layout config.columnEncoding) := by
  rw [layout, ← ColumnEncoding.apply_eq_ok hencoded]
  exact .cons (Symbol.shows_figure hd.rows_lt) <| .cons (Symbol.shows_figure hd.cols_lt) <|
    .cons (Symbol.shows_figure hd.nnz_lt) <| .cons (Symbol.shows_indices halign _) <|
    .cons (Symbol.shows_indices halign _) <| .cons (Symbol.shows_doubles halign _) <|
    .cons (Symbol.shows_doubles halign _) <| .cons (Symbol.shows_zeros halign _) .nil

/-- The data section of a dataset is read back as its layout. -/
theorem Addressable.reads_script (hd : dataset.Addressable)
    (halign : '\n' ∉ config.alignment.toList) (h : (dataset.script config).error? = none) :
    Reads (textLines (dataset.script config).text) (dataset.layout config.columnEncoding) := by
  obtain ⟨encoded, hencoded, hlines⟩ := Script.lines_of_csr script_eq h
  exact Script.reads hlines (hd.shows_symbols halign hencoded)
    (wellNamed config.columnEncoding dataset)

end MatrixVector

namespace ConjugateGradient

/-- The names of the three arrays of the matrix. -/
def csrNames : CsrNames := ⟨"A_PROW", "A_IDX", "A_DATA"⟩

/-- The symbols in front of the sparse matrix, the last ones. -/
def front (alignment : String) (dataset : ConjugateGradient Binary64) : List Symbol :=
  let vector := Array.replicate dataset.size (0 : Binary64)
  let matrix := Array.replicate (cellCount dataset.size dataset.size) (0 : Binary64)
  [.scalar "size" dataset.size.toUInt64, .scalar "step" dataset.steps,
    .scalar "sparsity" dataset.sparsity, .array alignment "A" dataset.operand.cells,
    .array alignment "b" dataset.rhs, .array alignment "x" vector, .array alignment "r" vector,
    .array alignment "p" vector, .array alignment "Ax" matrix, .array alignment "Ap" matrix]

variable {dataset : ConjugateGradient Binary64}

theorem script_eq : dataset.script config = .sequence (.dataSection ::
    ((dataset.front config.alignment).map .symbol ++ .csr config csrNames dataset.csr ::
      ([] : List Symbol).map .symbol)) := rfl

/-- The symbols of a dataset hold the words of its layout. -/
theorem shows_symbols (hsize : dataset.size < wordLimit)
    (halign : '\n' ∉ config.alignment.toList) {encoded : Array UInt32}
    (hencoded : config.columnEncoding.apply dataset.csr.colIdx = .ok encoded) :
    List.Forall₂ Symbol.Shows (dataset.front config.alignment ++
        dataset.csr.symbols config.alignment csrNames encoded ++ [])
      (dataset.layout config.columnEncoding (cellCount dataset.size dataset.size)) := by
  rw [layout, ← ColumnEncoding.apply_eq_ok hencoded]
  exact .cons (Symbol.shows_figure hsize) <|
    .cons (Symbol.shows_scalar rfl dataset.steps.toNat_lt) <|
    .cons (Symbol.shows_scalar rfl dataset.sparsity.bits.toNat_lt) <|
    .cons (Symbol.shows_doubles halign _) <| .cons (Symbol.shows_doubles halign _) <|
    .cons (Symbol.shows_zeros halign _) <| .cons (Symbol.shows_zeros halign _) <|
    .cons (Symbol.shows_zeros halign _) <| .cons (Symbol.shows_zeros halign _) <|
    .cons (Symbol.shows_zeros halign _) <| .cons (Symbol.shows_indices halign _) <|
    .cons (Symbol.shows_indices halign _) <| .cons (Symbol.shows_doubles halign _) .nil

/-- The data section of a dataset is read back as its layout. -/
theorem reads_script (hsize : dataset.size < wordLimit)
    (halign : '\n' ∉ config.alignment.toList) (h : (dataset.script config).error? = none) :
    Reads (textLines (dataset.script config).text)
      (dataset.layout config.columnEncoding (cellCount dataset.size dataset.size)) := by
  obtain ⟨encoded, hencoded, hlines⟩ := Script.lines_of_csr script_eq h
  exact Script.reads hlines (shows_symbols hsize halign hencoded)
    (wellNamed config.columnEncoding _ dataset)

end ConjugateGradient

/-! ## What a layout tells -/

/-- An array is told from the words that its entries are written as. -/
theorem eq_of_map_toList {f : UInt32 → Nat} (hf : Function.Injective f) {xs ys : Array UInt32}
    (h : xs.toList.map f = ys.toList.map f) : xs = ys :=
  Array.toList_inj.mp (hf.list_map h)

/-- The layout of a dataset tells everything about it but its report. -/
theorem MatrixVector.eq_of_layout {encoding : ColumnEncoding} (hencoding : encoding ≠ .byteOffset 0)
    {d d' : MatrixVector Binary64} (h : d.layout encoding = d'.layout encoding) :
    d.csr = d'.csr ∧ d.input = d'.input := by
  obtain ⟨⟨rows, cols, rowPtr, colIdx, values⟩, input, report⟩ := d
  obtain ⟨⟨rows', cols', rowPtr', colIdx', values'⟩, input', report'⟩ := d'
  simp only [layout, List.cons.injEq, Prod.mk.injEq, true_and, and_true] at h
  obtain ⟨hrows, hcols, -, hrowPtr, hcolIdx, hvalues, hinput, -⟩ := h
  obtain rfl := halves_injective hrows
  obtain rfl := halves_injective hcols
  obtain rfl := eq_of_map_toList (fun _ _ => UInt32.toNat_inj.mp) hrowPtr
  obtain rfl := eq_of_map_toList (ColumnEncoding.scaled_injective hencoding) hcolIdx
  obtain rfl := doubleWords_injective hvalues
  exact ⟨rfl, doubleWords_injective hinput⟩

/-- Two datasets agree on all that is emitted of a dataset for the conjugate gradient method. -/
structure ConjugateGradient.Agree (d d' : ConjugateGradient Binary64) : Prop where
  size : d.size = d'.size
  steps : d.steps = d'.steps
  sparsity : d.sparsity = d'.sparsity
  operand : d.operand.cells = d'.operand.cells
  rhs : d.rhs = d'.rhs
  rowPtr : d.csr.rowPtr = d'.csr.rowPtr
  colIdx : d.csr.colIdx = d'.csr.colIdx
  values : d.csr.values = d'.csr.values

/-- The layout of a dataset tells all that is emitted of it. -/
theorem ConjugateGradient.agree_of_layout {encoding : ColumnEncoding}
    (hencoding : encoding ≠ .byteOffset 0) {cells cells' : Nat}
    {d d' : ConjugateGradient Binary64}
    (h : d.layout encoding cells = d'.layout encoding cells') : d.Agree d' := by
  simp only [layout, List.cons.injEq, Prod.mk.injEq, true_and, and_true] at h
  obtain ⟨hsize, hsteps, hsparsity, hoperand, hrhs, -, -, -, -, -, hrowPtr, hcolIdx, hvalues⟩ := h
  exact {
    size := halves_injective hsize
    steps := UInt64.toNat_inj.mp (halves_injective hsteps)
    sparsity := Binary64.bits_inj.mp (UInt64.toNat_inj.mp (halves_injective hsparsity))
    operand := doubleWords_injective hoperand
    rhs := doubleWords_injective hrhs
    rowPtr := eq_of_map_toList (fun _ _ => UInt32.toNat_inj.mp) hrowPtr
    colIdx := eq_of_map_toList (ColumnEncoding.scaled_injective hencoding) hcolIdx
    values := doubleWords_injective hvalues }

/-! ## Emission -/

/-- **Emission loses nothing that it emits.** Whatever a dataset holds, if it is emitted to an
unlimited output the text there is read back as the layout of the dataset: its symbols in order,
each of them once, and below each label the words of the data. The matrices that the solvers work on
have all their cells if a word can count these, as it can for every size that a configuration may
ask for. So two datasets that leave the same text, under a configuration that does not scale columns
by zero, agree on all that is emitted. -/
theorem emission_lossless (config : EmissionConfig) (halign : '\n' ∉ config.alignment.toList) :
    (∀ d : MatrixVector Binary64, d.Addressable →
      ∀ sink, (Sink.empty none).run (d.script config) = (.ok (), sink) →
        ∃ text : String, sink.held = text.toUTF8 ∧
          Reads (textLines text) (d.layout config.columnEncoding)) ∧
    (∀ d : ConjugateGradient Binary64, d.size < wordLimit →
      ∀ sink, (Sink.empty none).run (d.script config) = (.ok (), sink) →
        ∃ text : String, sink.held = text.toUTF8 ∧
          Reads (textLines text)
            (d.layout config.columnEncoding (cellCount d.size d.size)) ∧
          (d.size * d.size < wordLimit →
            Reads (textLines text) (d.layout config.columnEncoding (d.size * d.size)))) ∧
    (config.columnEncoding ≠ .byteOffset 0 →
      (∀ d d' : MatrixVector Binary64, d.Addressable → d'.Addressable →
        ∀ sink, (Sink.empty none).run (d.script config) = (.ok (), sink) →
          (Sink.empty none).run (d'.script config) = (.ok (), sink) →
            d.csr = d'.csr ∧ d.input = d'.input) ∧
      ∀ d d' : ConjugateGradient Binary64, d.size < wordLimit → d'.size < wordLimit →
        ∀ sink, (Sink.empty none).run (d.script config) = (.ok (), sink) →
          (Sink.empty none).run (d'.script config) = (.ok (), sink) → d.Agree d') := by
  refine ⟨fun d hd sink h => ?_, fun d hd sink h => ?_, fun hencoding =>
    ⟨fun d d' hd hd' sink h h' => ?_, fun d d' hd hd' sink h h' => ?_⟩⟩
  · obtain ⟨herror, rfl⟩ := Sink.run_empty_eq_ok_iff.mp h
    exact ⟨_, rfl, hd.reads_script halign herror⟩
  · obtain ⟨herror, rfl⟩ := Sink.run_empty_eq_ok_iff.mp h
    have hreads := ConjugateGradient.reads_script hd halign herror
    refine ⟨_, rfl, hreads, fun hword => ?_⟩
    rwa [cellCount, Nat.mod_eq_of_lt hword] at hreads
  · -- one text, read back as both layouts
    have hreads := hd.reads_script halign (Sink.run_empty_eq_ok_iff.mp h).1
    have hreads' := hd'.reads_script halign (Sink.run_empty_eq_ok_iff.mp h').1
    rw [Sink.text_eq_of_run_eq h h'] at hreads
    exact MatrixVector.eq_of_layout hencoding (hreads.unique hreads' rfl)
  · have hreads := ConjugateGradient.reads_script hd halign (Sink.run_empty_eq_ok_iff.mp h).1
    have hreads' := ConjugateGradient.reads_script hd' halign (Sink.run_empty_eq_ok_iff.mp h').1
    rw [Sink.text_eq_of_run_eq h h'] at hreads
    exact ConjugateGradient.agree_of_layout hencoding (hreads.unique hreads' rfl)

/-- The vector is empty, a row is, and the alignment ends as a label does. Neither the report nor
the shape that a sparse operand has is emitted. -/
theorem emission_lossless_empty_vector :
    let config : EmissionConfig := ⟨"4:", .byteOffset 8⟩
    let one : Binary64 := ⟨0x3ff0000000000000⟩
    let d : MatrixVector Binary64 := ⟨⟨2, 3, #[0, 0, 1], #[2], #[one]⟩, #[], ⟨[]⟩⟩
    let d' : MatrixVector Binary64 := { d with report := ⟨[(.structural, .passed)]⟩ }
    let e : ConjugateGradient Binary64 :=
      ⟨1, 5, ⟨1, 1, #[one]⟩, ⟨1, 1, #[0, 1], #[0], #[one]⟩, #[.nan], one, ⟨[]⟩⟩
    let e' : ConjugateGradient Binary64 := { e with csr := { e.csr with rows := 7 } }
    '\n' ∉ config.alignment.toList ∧ config.columnEncoding ≠ .byteOffset 0 ∧
      d.Addressable ∧ d'.Addressable ∧ e.size < wordLimit ∧ e'.size < wordLimit ∧
      d.layout config.columnEncoding =
        [("R", [2, 0]), ("C", [3, 0]), ("NZ", [1, 0]), ("CSR_PROW", [0, 0, 1]),
          ("CSR_INDEX", [16]), ("CSR_DATA", [0, 0x3ff00000]), ("CSR_IN_VECTOR", []),
          ("CSR_OUT_VECTOR", [0, 0, 0, 0])] ∧
      (∃ sink, (Sink.empty none).run (d.script config) = (.ok (), sink) ∧
        (Sink.empty none).run (d'.script config) = (.ok (), sink) ∧
        (∃ text : String, sink.held = text.toUTF8 ∧
          Reads (textLines text) (d.layout config.columnEncoding)) ∧
        d.csr = d'.csr ∧ d.input = d'.input) ∧
      e.layout config.columnEncoding 1 =
        [("size", [1, 0]), ("step", [5, 0]), ("sparsity", [0, 0x3ff00000]),
          ("A", [0, 0x3ff00000]), ("b", [0, 0x7ff80000]), ("x", [0, 0]), ("r", [0, 0]),
          ("p", [0, 0]), ("Ax", [0, 0]), ("Ap", [0, 0]), ("A_PROW", [0, 1]), ("A_IDX", [0]),
          ("A_DATA", [0, 0x3ff00000])] ∧
      ∃ sink, (Sink.empty none).run (e.script config) = (.ok (), sink) ∧
        (Sink.empty none).run (e'.script config) = (.ok (), sink) ∧
        (∃ text : String, sink.held = text.toUTF8 ∧
          Reads (textLines text) (e.layout config.columnEncoding 1)) ∧
        e.Agree e' := by
  intro config one d d' e e'
  have halign : '\n' ∉ config.alignment.toList := by decide
  have hencoding : config.columnEncoding ≠ .byteOffset 0 := by decide
  have hd : d.Addressable := ⟨by decide, by decide, by decide⟩
  have hd' : d'.Addressable := ⟨by decide, by decide, by decide⟩
  have he : e.size < wordLimit := by decide
  have he' : e'.size < wordLimit := by decide
  have herror : (d.script config).error? = none :=
    Option.isNone_iff_eq_none.mp (by decide +kernel)
  have herror' : (e.script config).error? = none :=
    Option.isNone_iff_eq_none.mp (by decide +kernel)
  have hrun := Sink.run_empty_eq_ok_iff.mpr ⟨herror, rfl⟩
  have hrun' := Sink.run_empty_eq_ok_iff.mpr ⟨herror', rfl⟩
  obtain ⟨hvector, hgradient, hagree⟩ := emission_lossless config halign
  obtain ⟨hvectors, hgradients⟩ := hagree hencoding
  refine ⟨halign, hencoding, hd, hd', he, he', by decide +kernel, ⟨_, hrun, hrun, ?_, ?_⟩,
    by decide +kernel, ⟨_, hrun', hrun', ?_, ?_⟩⟩
  · exact hvector d hd _ hrun
  · exact hvectors d d' hd hd' _ hrun hrun
  · obtain ⟨text, htext, -, hreads⟩ := hgradient e he _ hrun'
    exact ⟨text, htext, hreads (by decide)⟩
  · exact hgradients e e' he he' _ hrun' hrun'

/-- A square of this size has no cells as a word counts them, so both matrices are left out where
there should be `2 ^ 65` zero words for each. -/
theorem emission_without_matrices :
    let config : EmissionConfig := ⟨"16", .logical⟩
    let d : ConjugateGradient Binary64 :=
      ⟨4294967296, 1, ⟨1, 1, #[0]⟩, ⟨1, 1, #[0, 0], #[], #[]⟩, #[], 0, ⟨[]⟩⟩
    '\n' ∉ config.alignment.toList ∧ d.size < wordLimit ∧
      ∃ (sink : Sink) (text : String),
        (Sink.empty none).run (d.script config) = (.ok (), sink) ∧ sink.held = text.toUTF8 ∧
        (wordsBelow (label "Ax") (textLines text)).length = 0 ∧
        ¬ Reads (textLines text) (d.layout config.columnEncoding (d.size * d.size)) := by
  intro config d
  have halign : '\n' ∉ config.alignment.toList := by decide
  have hsize : d.size < wordLimit := by decide
  have herror : (d.script config).error? = none := rfl
  obtain ⟨sink, hrun, hheld⟩ := Sink.exists_run_empty herror
  have hlength := (ConjugateGradient.reads_script hsize halign herror).length_wordsBelow
  have hcells : cellCount d.size d.size = 0 := by decide
  refine ⟨halign, hsize, sink, _, hrun, hheld, hlength.trans (congrArg (2 * ·) hcells), ?_⟩
  intro hfull
  have hall := hfull.length_wordsBelow.symm.trans hlength
  rw [hcells] at hall
  exact absurd hall (by decide)

end SparseDatasets
