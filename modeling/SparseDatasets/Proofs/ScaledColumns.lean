import SparseDatasets.Proofs.ArrayText
import SparseDatasets.Proofs.Emission

/-!
# Compressed matrices with scaled columns

Columns are written as offsets in bytes, and the offset of a column may be too great for an index.
The columns stand in the second of the three arrays of a matrix, but the emission decides on all of
them before it writes the first one. So either nothing is written and the first column that is too
great is named, or the three arrays are written whole, with every product as it is. What is written
is told by its text: the lines of the headers, and the numbers that the lines below them show.

- `ShowsWords`: lines that show words, in eight digits each.
- `ColumnEncoding.FirstOverflow`, `ColumnEncoding.apply_eq_error_iff`: the first column that is too
  great.
- `ColumnEncoding.exists_apply_eq_ok`: columns that all fit are encoded.
- `Csr.Listed`: the text that is written for the arrays of a matrix.
- `Script.csr_exact_or_untouched`: **an emission is exact or leaves the output as it is.**
-/

namespace SparseDatasets

/-! ## Lines that show words -/

/-- Word lines, each of which shows one of some words. -/
structure ShowsWords (lines : List String) (words : List Nat) : Prop where
  isWordLine : ∀ line ∈ lines, IsWordLine line
  shown : lines.map wordOfLine? = words.map some

/-- The words are what is read from the lines. -/
theorem ShowsWords.filterMap_eq {lines : List String} {words : List Nat}
    (h : ShowsWords lines words) : lines.filterMap wordOfLine? = words := by
  have hread : (lines.map wordOfLine?).filterMap id = words := by
    rw [h.shown]
    exact List.filterMap_map.trans List.filterMap_some
  rwa [List.filterMap_map] at hread

/-- The lines of indices show the indices. -/
theorem showsWords_indices (xs : Array UInt32) :
    ShowsWords (wordLines (xs.toList.flatMap LittleEndian.bytes))
      (xs.toList.map UInt32.toNat) where
  isWordLine _ := isWordLine_of_mem
  shown := by
    -- an index is one word, so its bytes are those of the number
    have hbytes : xs.toList.flatMap LittleEndian.bytes =
        (xs.toList.map UInt32.toNat).flatMap (bytesOfNat 4) := by
      rw [List.flatMap_map]
      rfl
    rw [hbytes, map_wordOfLine?_wordLines]
    intro w hw
    obtain ⟨x, -, rfl⟩ := List.mem_map.mp hw
    exact x.toNat_lt

/-- The lines of any data show words that the data fill. -/
theorem exists_showsWords (bytes : List UInt8) :
    ∃ words, ShowsWords (wordLines bytes) words ∧ InWords bytes words := by
  obtain ⟨words, hwords, hlines⟩ := exists_inWords bytes
  exact ⟨words, ⟨fun _ => isWordLine_of_mem, hlines⟩, hwords⟩

/-! ## Columns that are too great -/

namespace ColumnEncoding

variable {columns : Array UInt32} {elementBytes : UInt32}

/-- The column does not fit an index when it is scaled, and all columns before it do. -/
structure FirstOverflow (elementBytes : UInt32) (columns : Array UInt32) (col : UInt32) : Prop where
  overflows : indexLimit ≤ col.toNat * elementBytes.toNat
  first : ∃ before after, columns.toList = before ++ col :: after ∧
    ∀ c ∈ before, c.toNat * elementBytes.toNat < indexLimit

theorem find?_eq_some_iff {col : UInt32} :
    (columns.toList.find? fun c => ¬ c.toNat * elementBytes.toNat < indexLimit) = some col ↔
      FirstOverflow elementBytes columns col := by
  simp only [List.find?_eq_some_iff_append, decide_eq_true_eq, Nat.not_lt,
    Bool.not_eq_eq_eq_not, Bool.not_true, decide_eq_false_iff_not, Nat.not_le]
  constructor
  · rintro ⟨hover, hbefore⟩
    exact ⟨hover, hbefore⟩
  · intro h
    exact ⟨h.overflows, h.first⟩

theorem exists_firstOverflow (h : ∃ col ∈ columns, indexLimit ≤ col.toNat * elementBytes.toNat) :
    ∃ col, FirstOverflow elementBytes columns col := by
  obtain ⟨col, hcol, hover⟩ := h
  have hfound : (columns.toList.find? fun c =>
      ¬ c.toNat * elementBytes.toNat < indexLimit).isSome :=
    List.find?_isSome.mpr
      ⟨col, Array.mem_toList_iff.mpr hcol, decide_eq_true (Nat.not_lt.mpr hover)⟩
  obtain ⟨first, hfirst⟩ := Option.isSome_iff_exists.mp hfound
  exact ⟨first, find?_eq_some_iff.mp hfirst⟩

/-- Encoding fails at the first column that is too great. -/
theorem apply_eq_error_iff {error : DatasetError} :
    (byteOffset elementBytes).apply columns = .error error ↔
      ∃ col, error = .columnOverflow col elementBytes ∧ FirstOverflow elementBytes columns col := by
  simp only [apply_byteOffset, ← find?_eq_some_iff]
  cases columns.toList.find? fun c => ¬ c.toNat * elementBytes.toNat < indexLimit with
  | none => simp
  | some col => simp [eq_comm]

/-- Columns that all fit are encoded as the numbers that they are to be written as. -/
theorem exists_apply_eq_ok {encoding : ColumnEncoding}
    (h : ∀ col ∈ columns, encoding.scaled col < indexLimit) :
    ∃ encoded, encoding.apply columns = .ok encoded ∧
      encoded.toList.map UInt32.toNat = columns.toList.map encoding.scaled := by
  cases happly : encoding.apply columns with
  | ok encoded => exact ⟨encoded, rfl, apply_eq_ok happly⟩
  | error error =>
    cases encoding with
    | logical => cases happly
    | byteOffset elementBytes =>
      obtain ⟨col, -, hfirst⟩ := apply_eq_error_iff.mp happly
      obtain ⟨before, after, hsplit, -⟩ := hfirst.first
      have hmem : col ∈ columns := by
        rw [← Array.mem_toList_iff, hsplit]
        exact List.mem_append_right _ List.mem_cons_self
      exact absurd (h col hmem) (Nat.not_lt.mpr hfirst.overflows)

end ColumnEncoding

/-! ## Emissions -/

variable {α : Type} [LittleEndian α]

/-- Behind whatever an unlimited output holds, the emission of a matrix succeeds and writes three
arrays, each below its header: the row pointers, one word each, the given numbers, one word each,
and words that the bytes of the values fill. -/
structure Csr.Listed (config : EmissionConfig) (names : CsrNames) (m : Csr α) (columns : List Nat)
    (rowPtr colIdx values : List String) : Prop where
  written : ∀ held, (⟨none, held⟩ : Sink).run (.csr config names m) = (.ok (), ⟨none, held ++
    (Script.text ⟨Script.header names.rowPtr config.alignment ++ rowPtr ++
      (Script.header names.colIdx config.alignment ++ colIdx) ++
      (Script.header names.values config.alignment ++ values), none⟩).toUTF8⟩)
  rowPtr_shows : ShowsWords rowPtr (m.rowPtr.toList.map UInt32.toNat)
  colIdx_shows : ShowsWords colIdx columns
  values_show : ∃ words, ShowsWords values words ∧
    InWords (m.values.toList.flatMap LittleEndian.bytes) words

/-- If all columns fit, they are listed as the numbers that they are to be written as. -/
theorem Csr.exists_listed {config : EmissionConfig} (names : CsrNames) {m : Csr α}
    {encoding : ColumnEncoding} (hencoding : config.columnEncoding = encoding)
    (h : ∀ col ∈ m.colIdx, encoding.scaled col < indexLimit) :
    ∃ rowPtr colIdx values,
      m.Listed config names (m.colIdx.toList.map encoding.scaled) rowPtr colIdx values := by
  subst hencoding
  obtain ⟨encoded, happly, hencoded⟩ := ColumnEncoding.exists_apply_eq_ok h
  refine ⟨_, _, _, ?_, showsWords_indices m.rowPtr, hencoded ▸ showsWords_indices encoded,
    exists_showsWords _⟩
  intro held
  rw [Sink.run_unlimited, Script.csr_of_ok happly, Csr.symbols, List.flatMap_cons,
    List.flatMap_cons, List.flatMap_singleton, ← List.append_assoc]
  rfl

/-- **An emission with scaled columns is exact or leaves the output as it is.** If the product of
some column and the size of an element is no index, the first such column is named and the output
holds what it held before. Else the text has the header of each array and below it the row pointers,
the products, and the values; dividing the products gives the columns back. Columns that are not
scaled are written as they are. -/
theorem Script.csr_exact_or_untouched (config : EmissionConfig) (names : CsrNames) (m : Csr α) :
    (∀ elementBytes, config.columnEncoding = .byteOffset elementBytes →
      ((∃ col ∈ m.colIdx, indexLimit ≤ col.toNat * elementBytes.toNat) →
        ∃ col, ColumnEncoding.FirstOverflow elementBytes m.colIdx col ∧
          ∀ sink : Sink, sink.run (csr config names m) =
            (.error (.columnOverflow col elementBytes), sink)) ∧
      ((∀ col ∈ m.colIdx, col.toNat * elementBytes.toNat < indexLimit) →
        ∃ rowPtr colIdx values,
          m.Listed config names (m.colIdx.toList.map fun col => col.toNat * elementBytes.toNat)
            rowPtr colIdx values ∧
          (0 < elementBytes →
            (colIdx.filterMap wordOfLine?).map (· / elementBytes.toNat) =
              m.colIdx.toList.map UInt32.toNat))) ∧
    (config.columnEncoding = .logical →
      ∃ rowPtr colIdx values,
        m.Listed config names (m.colIdx.toList.map UInt32.toNat) rowPtr colIdx values) := by
  refine ⟨fun elementBytes hencoding => ⟨fun hover => ?_, fun hfits => ?_⟩, fun hencoding => ?_⟩
  · obtain ⟨col, hfirst⟩ := ColumnEncoding.exists_firstOverflow hover
    have hrefused : config.columnEncoding.apply m.colIdx =
        .error (.columnOverflow col elementBytes) := by
      rw [hencoding]
      exact ColumnEncoding.apply_eq_error_iff.mpr ⟨col, rfl, hfirst⟩
    refine ⟨col, hfirst, fun sink => ?_⟩
    -- a script that fails at once has no lines
    rw [csr_of_error hrefused]
    rfl
  · obtain ⟨rowPtr, colIdx, values, hlisted⟩ := Csr.exists_listed names hencoding hfits
    refine ⟨rowPtr, colIdx, values, hlisted, fun hpos => ?_⟩
    rw [hlisted.colIdx_shows.filterMap_eq, List.map_map]
    refine List.map_congr_left fun col _ => ?_
    exact Nat.mul_div_cancel _ (UInt32.lt_iff_toNat_lt.mp hpos)
  · exact Csr.exists_listed names hencoding fun col _ => col.toNat_lt

/-- The greatest column that fits when it is scaled by eight, the least that does not, and the
greatest of all, in arrays that are no matrix. -/
theorem Script.csr_exact_or_untouched_limits :
    let scaled : EmissionConfig := ⟨"16", .byteOffset 8⟩
    let plain : EmissionConfig := ⟨"16", .logical⟩
    let names : CsrNames := ⟨"P", "I", "V"⟩
    let m : Csr Int32 := ⟨1, 5, #[7], #[536870911, 536870912, 4294967295], #[-1]⟩
    let n : Csr Int32 := ⟨1, 5, #[7], #[536870911, 0], #[-1]⟩
    (∃ col ∈ m.colIdx, indexLimit ≤ col.toNat * (8 : UInt32).toNat) ∧
      (∀ sink : Sink, sink.run (csr scaled names m) =
        (.error (.columnOverflow 536870912 8), sink)) ∧
      (∃ rowPtr colIdx values, m.Listed plain names [536870911, 536870912, 4294967295]
        rowPtr colIdx values) ∧
      (∀ col ∈ n.colIdx, col.toNat * (8 : UInt32).toNat < indexLimit) ∧
      ∃ rowPtr colIdx values, n.Listed scaled names [4294967288, 0] rowPtr colIdx values ∧
        (colIdx.filterMap wordOfLine?).map (· / 8) = [536870911, 0] := by
  intro scaled plain names m n
  have hover : ∃ col ∈ m.colIdx, indexLimit ≤ col.toNat * (8 : UInt32).toNat :=
    ⟨4294967295, by simp [m], by decide⟩
  have hfits : ∀ col ∈ n.colIdx, col.toNat * (8 : UInt32).toNat < indexLimit := by
    intro col hcol
    have hcases : col = 536870911 ∨ col = 0 := by simpa [n] using hcol
    rcases hcases with rfl | rfl <;> decide
  have hfind : (m.colIdx.toList.find? fun c => ¬ c.toNat * (8 : UInt32).toNat < indexLimit) =
      some 536870912 := by decide
  obtain ⟨col, hfirst, hrun⟩ := ((csr_exact_or_untouched scaled names m).1 8 rfl).1 hover
  cases hfind.symm.trans (ColumnEncoding.find?_eq_some_iff.mpr hfirst)
  obtain ⟨rowPtr, colIdx, values, hlisted, hdivided⟩ :=
    ((csr_exact_or_untouched scaled names n).1 8 rfl).2 hfits
  exact ⟨hover, hrun, (csr_exact_or_untouched plain names m).2 rfl, hfits,
    ⟨rowPtr, colIdx, values, hlisted, hdivided (by decide)⟩⟩

end SparseDatasets
