import SparseDatasets.Dataset.Config
import SparseDatasets.Proofs.Forms

/-!
# Values read back from their texts

A value is read back from its text, whatever the spacing, if its form can be written and its form
is read back. Both come from the same of the value's parts: integers of each width over their whole
range, strings of any characters, and lists of any length.

- `JsonForm.Faithful`: the form of a value can be written and is read back.
- `JsonForm.Faithful.readsBack`: so the value is read back from its texts.
- `Dense.faithful`, `Csr.faithful`, ...: one lemma for each kind of value, from its parts.
- `readsBack_of_words`: **every value whose numbers are words is read back.**
-/

namespace SparseDatasets

namespace JsonForm

variable {α : Type} [JsonForm α]

/-- A value is read back from both of its texts. -/
def ReadsBack (x : α) : Prop := ofText? (text x) = some x ∧ ofText? (prettyText x) = some x

/-- The form of a value can be written and is read back. -/
structure Faithful (x : α) : Prop where
  written : (toJson x : Json).Written
  ofJson?_eq : ofJson? (toJson x) = some x

theorem Faithful.readsBack {x : α} (h : Faithful x) : ReadsBack x := by
  have htext : ∀ spacing : Spacing, spacing.Blank →
      ofText? ((toJson x).render spacing) = some x := by
    intro spacing hspacing
    rw [ofText?, h.written.parse?_render hspacing, Option.bind_some, h.ofJson?_eq]
  exact ⟨htext _ Spacing.compact_blank, htext _ Spacing.pretty_blank⟩

end JsonForm

open JsonForm (Faithful ReadsBack)

/-! ## Numbers, strings and lists -/

theorem faithful_nat {n : Nat} (h : n < wordLimit) : Faithful n := ⟨written_nat n, ofJson?_nat h⟩

theorem faithful_uint32 (n : UInt32) : Faithful n := ⟨written_uint32 n, ofJson?_uint32 n⟩

theorem faithful_int32 (n : Int32) : Faithful n := by
  refine ⟨.ofInt _, ?_⟩
  show ((Json.ofInt n.toInt).int? Int32.minValue.toInt Int32.maxValue.toInt).map Int32.ofInt = _
  rw [Json.int?_ofInt n.minValue_le_toInt n.toInt_le, Option.map_some, Int32.ofInt_toInt]

theorem faithful_int64 (n : Int64) : Faithful n := by
  refine ⟨.ofInt _, ?_⟩
  show ((Json.ofInt n.toInt).int? Int64.minValue.toInt Int64.maxValue.toInt).map Int64.ofInt = _
  rw [Json.int?_ofInt n.minValue_le_toInt n.toInt_le, Option.map_some, Int64.ofInt_toInt]

theorem faithful_string (content : String) : Faithful content := ⟨.string content, rfl⟩

/-- The items of an array are written and read back as a list. -/
theorem faithful_items {α : Type} [JsonForm α] {xs : Array α} (h : ∀ x ∈ xs, Faithful x) :
    (Json.ofList xs.toList).Written ∧ (Json.ofList xs.toList).list? = some xs.toList :=
  ⟨.ofList fun x hx => (h x (Array.mem_toList_iff.mp hx)).written,
    Json.list?_ofList fun x hx => (h x (Array.mem_toList_iff.mp hx)).ofJson?_eq⟩

/-! ## Matrices -/

section Matrices

variable {α : Type} [JsonForm α]

theorem Support.faithful {s : Support} (h : ∀ p ∈ s.positions, p < wordLimit) : Faithful s := by
  obtain ⟨hwritten, hlist⟩ := faithful_items fun p hp => faithful_nat (h p hp)
  constructor
  · exact .fields hwritten
  · refine (Json.fields?_record_bind ["indices"] rfl (by decide)).trans ?_
    show (do return ⟨(← (Json.ofList s.positions.toList).list?).toArray⟩) = some s
    rw [hlist]
    rfl

theorem Dense.faithful {d : Dense α} (hrows : d.rows < wordLimit) (hcols : d.cols < wordLimit)
    (hcells : ∀ x ∈ d.cells, Faithful x) : Faithful d := by
  obtain ⟨hwritten, hlist⟩ := faithful_items hcells
  constructor
  · exact .fields ⟨written_nat _, written_nat _, hwritten⟩
  · refine (Json.fields?_record_bind ["rows", "cols", "data"] rfl (by decide)).trans ?_
    show (do return ⟨← ofJson? (toJson d.rows), ← ofJson? (toJson d.cols),
      (← (Json.ofList d.cells.toList).list?).toArray⟩) = some d
    rw [ofJson?_nat hrows, ofJson?_nat hcols, hlist]
    rfl

theorem Csr.faithful {m : Csr α} (hrows : m.rows < wordLimit) (hcols : m.cols < wordLimit)
    (hvalues : ∀ x ∈ m.values, Faithful x) : Faithful m := by
  obtain ⟨hwrittenPtr, hlistPtr⟩ := faithful_items fun p (_ : p ∈ m.rowPtr) => faithful_uint32 p
  obtain ⟨hwrittenIdx, hlistIdx⟩ := faithful_items fun c (_ : c ∈ m.colIdx) => faithful_uint32 c
  obtain ⟨hwritten, hlist⟩ := faithful_items hvalues
  constructor
  · exact .fields ⟨written_nat _, written_nat _, hwrittenPtr, hwrittenIdx, hwritten⟩
  · refine (Json.fields?_record_bind ["rows", "cols", "row_ptr", "col_idx", "values"] rfl
      (by decide)).trans ?_
    show (do return ⟨← ofJson? (toJson m.rows), ← ofJson? (toJson m.cols),
      (← (Json.ofList m.rowPtr.toList).list?).toArray,
      (← (Json.ofList m.colIdx.toList).list?).toArray,
      (← (Json.ofList m.values.toList).list?).toArray⟩) = some m
    rw [ofJson?_nat hrows, ofJson?_nat hcols, hlistPtr, hlistIdx, hlist]
    rfl

end Matrices

/-! ## Errors and reports -/

/-- An error of any kind but a failed round trip whose numbers are words. -/
theorem MatrixError.faithful {error : MatrixError} (hkind : error.kind ≠ .roundTrip)
    (hsizes : ∀ n ∈ error.sizes, n < wordLimit) : Faithful error := by
  -- only a failed round trip has doubles, and these are what may be written as null
  refine ⟨error.written, ofJson?_toJson hsizes ?_⟩
  cases error with
  | roundTrip => exact absurd rfl hkind
  | _ => exact fun x hx => absurd hx List.not_mem_nil

theorem Report.faithful {report : Report}
    (h : ∀ outcome ∈ report.outcomes, ∀ error, outcome.2 = .failed error →
      error.kind ≠ .roundTrip ∧ ∀ n ∈ error.sizes, n < wordLimit) : Faithful report := by
  refine ⟨report.written, ofJson?_of_errors fun outcome hmem error herror => ?_⟩
  obtain ⟨hkind, hsizes⟩ := h outcome hmem error herror
  exact (MatrixError.faithful hkind hsizes).ofJson?_eq

/-! ## Configurations -/

theorem ColumnEncoding.faithful (encoding : ColumnEncoding) : Faithful encoding := by
  cases encoding with
  | logical => exact ⟨.string "Logical", rfl⟩
  | byteOffset elementBytes =>
    constructor
    · exact .variant _ (.fields (written_uint32 elementBytes))
    · show Option.bind (some ("ByteOffset", some (Json.record _))) _ = _
      rw [Option.bind_some]
      show Option.bind (some (Json.record _)) _ = _
      rw [Option.bind_some]
      refine (Json.fields?_record_bind ["element_bytes"] rfl (by decide)).trans ?_
      show (do return byteOffset (← ofJson? (toJson elementBytes))) = some (byteOffset elementBytes)
      rw [ofJson?_uint32]
      rfl

theorem EmissionConfig.faithful (config : EmissionConfig) : Faithful config := by
  constructor
  · exact .fields ⟨(faithful_string _).written, config.columnEncoding.faithful.written⟩
  · refine (Json.fields?_record_bind ["alignment", "column_encoding"] rfl (by decide)).trans ?_
    show (do return ⟨← ofJson? (toJson config.alignment),
      ← ofJson? (toJson config.columnEncoding)⟩) = some config
    rw [(faithful_string _).ofJson?_eq, config.columnEncoding.faithful.ofJson?_eq]
    rfl

/-! ## All of them -/

/-- **Every value whose numbers are words is read back**, from its compact and from its pretty text:
every support, every matrix of integers whether its arrays fit together or not, every error but a
failed round trip, every report on such errors with whatever checks in whatever order, and every
configuration of an emission, whatever characters the alignment has. -/
theorem readsBack_of_words :
    (∀ s : Support, (∀ p ∈ s.positions, p < wordLimit) → ReadsBack s) ∧
    (∀ d : Dense Int32, d.rows < wordLimit → d.cols < wordLimit → ReadsBack d) ∧
    (∀ d : Dense Int64, d.rows < wordLimit → d.cols < wordLimit → ReadsBack d) ∧
    (∀ m : Csr Int32, m.rows < wordLimit → m.cols < wordLimit → ReadsBack m) ∧
    (∀ m : Csr Int64, m.rows < wordLimit → m.cols < wordLimit → ReadsBack m) ∧
    (∀ error : MatrixError, error.kind ≠ .roundTrip → (∀ n ∈ error.sizes, n < wordLimit) →
      ReadsBack error) ∧
    (∀ report : Report, (∀ outcome ∈ report.outcomes, ∀ error, outcome.2 = .failed error →
        error.kind ≠ .roundTrip ∧ ∀ n ∈ error.sizes, n < wordLimit) → ReadsBack report) ∧
    ∀ config : EmissionConfig, ReadsBack config := by
  refine ⟨?_, ?_, ?_, ?_, ?_, ?_, ?_, ?_⟩
  · intro s h
    exact (Support.faithful h).readsBack
  · intro d hrows hcols
    exact (Dense.faithful hrows hcols fun x _ => faithful_int32 x).readsBack
  · intro d hrows hcols
    exact (Dense.faithful hrows hcols fun x _ => faithful_int64 x).readsBack
  · intro m hrows hcols
    exact (Csr.faithful hrows hcols fun x _ => faithful_int32 x).readsBack
  · intro m hrows hcols
    exact (Csr.faithful hrows hcols fun x _ => faithful_int64 x).readsBack
  · intro error hkind hsizes
    exact (MatrixError.faithful hkind hsizes).readsBack
  · intro report h
    exact (Report.faithful h).readsBack
  · intro config
    exact config.faithful.readsBack

/-- Positions, entries and sizes at the ends of their ranges, a report that records a check twice
and no other, and an alignment of a quote, a backslash, a control character and a character beyond
the first plane. -/
theorem readsBack_of_words_extreme :
    ReadsBack (Support.mk #[0, wordLimit - 1]) ∧
    ReadsBack (Dense.mk 0 (wordLimit - 1) #[Int64.minValue, Int64.maxValue]) ∧
    ReadsBack (Csr.mk (wordLimit - 1) 0 #[4294967295] #[] #[Int32.minValue, Int32.maxValue]) ∧
    ReadsBack (MatrixError.layout (.shapeMismatch (0, wordLimit - 1) (1, 2))) ∧
    ReadsBack (Report.mk [(.symmetry, .failed (.asymmetry 0 1)), (.symmetry, .skipped)]) ∧
    ReadsBack (EmissionConfig.mk "\"\\\x01😀" (.byteOffset 0)) := by
  obtain ⟨hsupport, -, hdense, hcsr, -, herror, hreport, hconfig⟩ := readsBack_of_words
  refine ⟨hsupport _ ?_, hdense _ (by decide) (by decide), hcsr _ (by decide) (by decide),
    herror _ (by decide) (by decide), hreport _ ?_, hconfig _⟩
  · simp [wordLimit, UInt64.size]
  · simp [MatrixError.kind, MatrixError.sizes, wordLimit, UInt64.size]

end SparseDatasets
