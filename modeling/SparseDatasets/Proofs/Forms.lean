import SparseDatasets.Proofs.DecimalText
import SparseDatasets.Proofs.Parsing
import SparseDatasets.Validation.Form

/-!
# Forms read back

The form of a record names its fields, and the form of a variant names the variant,
so both are read back if their parts are. Counts and positions are read back if
they are words. A double is read back if it is finite; what is no number is written
as null, and no number is read from that.

- `Json.fields?_record`: the fields of a record.
- `Json.list?_ofList`: the items of a list.
- `MatrixError.sizes`, `MatrixError.doubles`: the numbers in an error.
- `MatrixError.ofJson?_toJson`, `MatrixError.ofJson?_eq_none`: an error is read back if its numbers
  are, and is refused for every null.
- `Report.ofText?_render`: **a report is read back exactly if its doubles are finite.**
-/

namespace SparseDatasets

namespace Json

/-! ## Records, variants and lists -/

theorem Written.record {fields : List (String × Json)} (h : ∀ field ∈ fields, field.2.Written) :
    (record fields).Written := by
  refine .object ?_ ?_
  · intro entry hentry
    obtain ⟨field, -, rfl⟩ := List.mem_map.mp hentry
    rfl
  · intro entry hentry
    obtain ⟨field, hfield, rfl⟩ := List.mem_map.mp hentry
    exact h field hfield

/-- A record is written field by field. -/
theorem Written.fields {fields : List (String × Json)}
    (h : fields.Forall fun field => field.2.Written) : (Json.record fields).Written :=
  .record (List.forall_iff_forall_mem.mp h)

theorem Written.variant (name : String) {payload : Json} (h : payload.Written) :
    (variant name payload).Written := by
  refine .object ?_ ?_
  · intro entry hentry
    cases List.mem_singleton.mp hentry
    rfl
  · intro entry hentry
    cases List.mem_singleton.mp hentry
    exact h

theorem Written.ofList {α : Type} [JsonForm α] {xs : List α} (h : ∀ x ∈ xs, (toJson x).Written) :
    (ofList xs).Written := by
  refine .array fun item hitem => ?_
  obtain ⟨x, hx, rfl⟩ := List.mem_map.mp hitem
  exact h x hx

/-- Among members of different names one has a given name. -/
theorem filter_members {fields : List (String × Json)} (hnames : (fields.map (·.1)).Nodup)
    {name : String} {value : Json} (h : (name, value) ∈ fields) :
    ((fields.map fun (name, value) => (some name, value)).filter
      fun entry => entry.1 = some name) = [(some name, value)] := by
  induction fields with
  | nil => cases h
  | cons field fields ih =>
    rw [List.map_cons, List.nodup_cons] at hnames
    rcases List.mem_cons.mp h with rfl | h
    · -- no other field has the name of the first one
      rw [List.map_cons, List.filter_cons_of_pos (by simp), List.filter_eq_nil_iff.mpr]
      intro entry hentry
      obtain ⟨field, hfield, rfl⟩ := List.mem_map.mp hentry
      have hne : field.1 ≠ name := fun hname =>
        hnames.1 (List.mem_map.mpr ⟨field, hfield, hname⟩)
      simpa using hne
    · have hne : field.1 ≠ name := fun hname =>
        hnames.1 (List.mem_map.mpr ⟨_, h, hname.symm⟩)
      rw [List.map_cons, List.filter_cons_of_neg (by simpa using hne)]
      exact ih hnames.2 h

/-- The fields of a record, asked for by their names. -/
theorem fields?_record {fields : List (String × Json)} {names : List String}
    (hnames : fields.map (·.1) = names) (hnodup : names.Nodup) :
    (record fields).fields? names = some (fields.map (·.2)) := by
  subst hnames
  have hmembers : ∀ l : List (String × Json), (∀ field ∈ l, field ∈ fields) →
      (l.map (·.1)).mapM (member? (fields.map fun (name, value) => (some name, value))) =
        some (l.map (·.2)) := by
    intro l
    induction l with
    | nil => exact fun _ => rfl
    | cons field l ih =>
      intro hl
      have hmember : member? (fields.map fun (name, value) => (some name, value)) field.1 =
          some field.2 := by
        rw [member?, filter_members hnodup (hl field List.mem_cons_self)]
      rw [List.map_cons, List.mapM_cons, hmember,
        ih fun other hother => hl other (List.mem_cons_of_mem _ hother)]
      rfl
  unfold record fields?
  dsimp only
  rw [if_pos, hmembers fields fun _ h => h]
  simp

/-- What is done with the fields of a record, asked for by their names. -/
theorem fields?_record_bind {β : Type} (names : List String) {fields : List (String × Json)}
    {f : List Json → Option β} (hnames : fields.map (·.1) = names) (hnodup : names.Nodup) :
    ((record fields).fields? names).bind f = f (fields.map (·.2)) := by
  rw [fields?_record hnames hnodup, Option.bind_some]

/-- A list is read back if its items are. -/
theorem list?_ofList {α : Type} [JsonForm α] {xs : List α}
    (h : ∀ x ∈ xs, ofJson? (toJson x) = some x) : (ofList xs).list? = some xs := by
  show (xs.map toJson).mapM ofJson? = some xs
  induction xs with
  | nil => rfl
  | cons x xs ih =>
    rw [List.map_cons, List.mapM_cons, h x List.mem_cons_self,
      ih fun y hy => h y (List.mem_cons_of_mem _ hy)]
    rfl

/-- A list is refused for an item. -/
theorem list?_ofList_eq_none {α : Type} [JsonForm α] {xs : List α}
    (h : ∃ x ∈ xs, (ofJson? (toJson x) : Option α) = none) :
    ((ofList xs).list? : Option (List α)) = none := by
  show (xs.map toJson).mapM (ofJson? : Json → Option α) = none
  induction xs with
  | nil =>
    obtain ⟨x, hx, -⟩ := h
    cases hx
  | cons x xs ih =>
    rw [List.map_cons, List.mapM_cons]
    obtain ⟨y, hy, hnone⟩ := h
    rcases List.mem_cons.mp hy with rfl | hy
    · rw [hnone]
      rfl
    · rw [ih ⟨y, hy, hnone⟩]
      cases (ofJson? (toJson x) : Option α) <;> rfl

end Json

/-! ## Numbers -/

theorem Json.Written.ofInt (n : Int) : (ofInt n).Written := by
  rw [ofInt_eq]
  refine .number ?_
  rw [String.toList_ofList, NumberParts.ofChars?_toDigits]
  rfl

theorem written_nat (n : Nat) : (toJson n : Json).Written := .ofInt n

/-- A word is read back. -/
theorem ofJson?_nat {n : Nat} (h : n < UInt64.size) : ofJson? (toJson n) = some n :=
  Json.natBelow?_ofInt h

theorem written_uint32 (n : UInt32) : (toJson n : Json).Written := written_nat n.toNat

theorem ofJson?_uint32 (n : UInt32) : ofJson? (toJson n) = some n := by
  show ((Json.ofInt n.toNat).natBelow? UInt32.size).map Nat.toUInt32 = some n
  rw [Json.natBelow?_ofInt n.toNat_lt, Option.map_some]
  exact congrArg some (UInt32.ofNat_toNat (x := n))

theorem written_shape (shape : Nat × Nat) : (toJson shape : Json).Written := by
  refine .array fun item hitem => ?_
  rcases List.mem_cons.mp hitem with rfl | hitem
  · exact written_nat shape.1
  · cases List.mem_singleton.mp hitem
    exact written_nat shape.2

theorem ofJson?_shape {shape : Nat × Nat} (hrows : shape.1 < UInt64.size)
    (hcols : shape.2 < UInt64.size) : ofJson? (toJson shape) = some shape := by
  show (do return (← ofJson? (toJson shape.1), ← ofJson? (toJson shape.2))) = some shape
  rw [ofJson?_nat hrows, ofJson?_nat hcols]
  rfl

namespace Binary64

variable {x : Binary64}

/-- What is no finite number is written as null. -/
theorem toJson_of_not_isFinite (h : ¬ x.IsFinite) : toJson x = .null := by
  have hliteral : x.literal? = none := by
    unfold literal?
    rw [if_pos]
    unfold IsFinite at h
    cases hnan : x.isNaN <;> simp_all
  simp only [toJson, hliteral]

/-- No number is read from null. -/
theorem ofJson?_of_not_isFinite (h : ¬ x.IsFinite) :
    (ofJson? (toJson x) : Option Binary64) = none := by
  rw [toJson_of_not_isFinite h]
  rfl

/-- What is written for a double is a number or null. -/
theorem written_toJson (x : Binary64) : (toJson x : Json).Written := by
  by_cases hfinite : x.IsFinite
  · obtain ⟨parts, hparts, hform, -⟩ := hfinite.exists_parts
    rw [hform]
    refine .number ?_
    rw [String.toList_ofList, hparts.ofChars?_chars]
    rfl
  · rw [toJson_of_not_isFinite hfinite]
    exact .null

end Binary64

/-! ## Errors -/

/-- The counts and positions in a defect. -/
def InputDefect.sizes : InputDefect → List Nat
  | emptyDimension rows cols => [rows, cols]
  | dimensionOverflow rows cols => [rows, cols]
  | indexOverflow value => [value]
  | notAscending position previous index => [position, previous, index]
  | outOfRange position index limit => [position, index, limit]
  | lengthMismatch expected found => [expected, found]
  | notSquare rows cols => [rows, cols]

/-- The counts and positions in a defect that are not already words. -/
def LayoutDefect.sizes : LayoutDefect → List Nat
  | shapeMismatch expected found => [expected.1, expected.2, found.1, found.2]
  | rowPtrLength expected found => [expected, found]
  | nonzeroStart _ => []
  | decreasingRowPtr row => [row]
  | partialSpan row expected consumed => [row, expected, consumed]
  | slotCountMismatch rowPtrEnd colIdxLength valuesLength =>
    [rowPtrEnd, colIdxLength, valuesLength]
  | columnOutOfRange slot _ cols => [slot, cols]
  | unsortedColumns row slot => [row, slot]

namespace MatrixError

/-- The counts and positions in an error that are not already words. -/
def sizes : MatrixError → List Nat
  | input defect => defect.sizes
  | layout defect => defect.sizes
  | roundTrip row col _ _ => [row, col]
  | singularDiagonal index => [index]
  | asymmetry row col => [row, col]

/-- The doubles in an error. -/
def doubles : MatrixError → List Binary64
  | roundTrip _ _ expected found => [expected, found]
  | _ => []

end MatrixError

namespace InputDefect

theorem written (defect : InputDefect) : (toJson defect : Json).Written := by
  refine .variant _ (.record fun field hfield => ?_)
  cases defect <;>
    simp only [InputDefect.variant, List.mem_cons, List.not_mem_nil, or_false] at hfield <;>
    rcases hfield with rfl | rfl | rfl <;> exact written_nat _

/-- A defect is read back if its counts and positions are words. -/
theorem ofJson?_toJson {defect : InputDefect} (h : ∀ n ∈ defect.sizes, n < UInt64.size) :
    ofJson? (toJson defect) = some defect := by
  show ofVariant? defect.variant.1 (.record defect.variant.2) = some defect
  cases defect <;>
    simp_all [sizes, variant, ofVariant?, Json.fields?_record, ofJson?_nat]

end InputDefect

namespace LayoutDefect

theorem written (defect : LayoutDefect) : (toJson defect : Json).Written := by
  refine .variant _ (.record fun field hfield => ?_)
  cases defect <;>
    simp only [LayoutDefect.variant, List.mem_cons, List.not_mem_nil, or_false] at hfield <;>
    rcases hfield with rfl | rfl | rfl <;>
    first | exact written_nat _ | exact written_uint32 _ | exact written_shape _

/-- A defect is read back if its counts and positions are words. -/
theorem ofJson?_toJson {defect : LayoutDefect} (h : ∀ n ∈ defect.sizes, n < UInt64.size) :
    ofJson? (toJson defect) = some defect := by
  show ofVariant? defect.variant.1 (.record defect.variant.2) = some defect
  cases defect <;>
    simp_all [sizes, variant, ofVariant?, Json.fields?_record, ofJson?_nat, ofJson?_uint32,
      ofJson?_shape]

end LayoutDefect

namespace MatrixError

theorem written (error : MatrixError) : (toJson error : Json).Written := by
  cases error with
  | input defect => exact .variant _ defect.written
  | layout defect => exact .variant _ defect.written
  | roundTrip row col expected found =>
    exact .variant _ (.fields ⟨written_nat row, written_nat col, expected.written_toJson,
      found.written_toJson⟩)
  | singularDiagonal index => exact .variant _ (.fields (written_nat index))
  | asymmetry row col => exact .variant _ (.fields ⟨written_nat row, written_nat col⟩)

theorem ofJson?_input (defect : InputDefect) :
    (ofJson? (toJson (input defect)) : Option MatrixError) =
      (ofJson? (toJson defect)).map input := by
  show (ofJson? (toJson defect)).bind (fun defect => some (input defect)) = _
  rw [Option.map_eq_bind]
  rfl

theorem ofJson?_layout (defect : LayoutDefect) :
    (ofJson? (toJson (layout defect)) : Option MatrixError) =
      (ofJson? (toJson defect)).map layout := by
  show (ofJson? (toJson defect)).bind (fun defect => some (layout defect)) = _
  rw [Option.map_eq_bind]
  rfl

/-- A failed round trip is read field by field. -/
theorem ofJson?_roundTrip (row col : Nat) (expected found : Binary64) :
    (ofJson? (toJson (roundTrip row col expected found)) : Option MatrixError) = do
      return roundTrip (← ofJson? (toJson row)) (← ofJson? (toJson col))
        (← ofJson? (toJson expected)) (← ofJson? (toJson found)) := by
  show Option.bind (some ("RoundTrip", some (Json.record _))) _ = _
  rw [Option.bind_some]
  exact Json.fields?_record_bind ["row", "col", "expected", "found"] rfl (by decide)

/-- An error is read back if its counts and positions are words and its doubles are finite. -/
theorem ofJson?_toJson {error : MatrixError} (hsizes : ∀ n ∈ error.sizes, n < UInt64.size)
    (hdoubles : ∀ x ∈ error.doubles, x.IsFinite) :
    ofJson? (toJson error) = some error := by
  cases error with
  | input defect =>
    rw [ofJson?_input, InputDefect.ofJson?_toJson hsizes]
    rfl
  | layout defect =>
    rw [ofJson?_layout, LayoutDefect.ofJson?_toJson hsizes]
    rfl
  | roundTrip row col expected found =>
    simp only [sizes, doubles, List.forall_mem_cons] at hsizes hdoubles
    rw [ofJson?_roundTrip, ofJson?_nat hsizes.1, ofJson?_nat hsizes.2.1,
      hdoubles.1.ofJson?_toJson, hdoubles.2.1.ofJson?_toJson]
    rfl
  | singularDiagonal index =>
    show Option.bind (some ("SingularDiagonal", some (Json.record _))) _ = _
    rw [Option.bind_some]
    refine (Json.fields?_record_bind ["index"] rfl (by decide)).trans ?_
    show (ofJson? (toJson index)).bind (fun index => some (singularDiagonal index)) = _
    rw [ofJson?_nat (hsizes index List.mem_cons_self)]
    rfl
  | asymmetry row col =>
    simp only [sizes, List.forall_mem_cons] at hsizes
    show Option.bind (some ("Asymmetry", some (Json.record _))) _ = _
    rw [Option.bind_some]
    refine (Json.fields?_record_bind ["row", "col"] rfl (by decide)).trans ?_
    show (do return asymmetry (← ofJson? (toJson row)) (← ofJson? (toJson col))) = _
    rw [ofJson?_nat hsizes.1, ofJson?_nat hsizes.2.1]
    rfl

/-- An error with a null for a double is refused. -/
theorem ofJson?_eq_none {error : MatrixError} (h : ∃ x ∈ error.doubles, ¬ x.IsFinite) :
    (ofJson? (toJson error) : Option MatrixError) = none := by
  obtain ⟨x, hx, hinfinite⟩ := h
  have hnone := Binary64.ofJson?_of_not_isFinite hinfinite
  cases error with
  | roundTrip row col expected found =>
    rw [ofJson?_roundTrip]
    simp only [doubles, List.mem_cons, List.not_mem_nil, or_false] at hx
    rcases hx with rfl | rfl <;> rw [hnone]
    · cases (ofJson? (toJson row) : Option Nat) <;> cases (ofJson? (toJson col) : Option Nat) <;>
        rfl
    · cases (ofJson? (toJson row) : Option Nat) <;> cases (ofJson? (toJson col) : Option Nat) <;>
        cases (ofJson? (toJson expected) : Option Binary64) <;> rfl
  | _ => cases hx

end MatrixError

/-! ## Reports -/

theorem Check.written (check : Check) : (toJson check : Json).Written := .string _

theorem Check.ofJson?_toJson (check : Check) : ofJson? (toJson check) = some check := by
  cases check <;> decide

/-- A status is read back if the error of a failure is. -/
theorem Status.ofJson?_toJson {status : Status}
    (h : ∀ error, status = .failed error → ofJson? (toJson error) = some error) :
    ofJson? (toJson status) = some status := by
  cases status with
  | passed => rfl
  | skipped => rfl
  | failed error =>
    show (ofJson? (toJson error)).bind (fun error => some (Status.failed error)) = _
    rw [h error rfl]
    rfl

/-- The counts and positions in the error of a failure that are not already words. -/
def Status.sizes : Status → List Nat
  | .failed error => error.sizes
  | _ => []

/-- The doubles in the error of a failure. -/
def Status.doubles : Status → List Binary64
  | .failed error => error.doubles
  | _ => []

namespace Report

/-- The counts and positions in the errors of a report that are not already words. -/
def sizes (report : Report) : List Nat := report.outcomes.flatMap fun outcome => outcome.2.sizes

/-- The doubles in the errors of a report. -/
def doubles (report : Report) : List Binary64 :=
  report.outcomes.flatMap fun outcome => outcome.2.doubles

variable {report : Report} {outcome : Check × Status}

theorem mem_sizes (h : outcome ∈ report.outcomes) :
    ∀ n ∈ outcome.2.sizes, n ∈ report.sizes := fun _ hn => List.mem_flatMap.mpr ⟨_, h, hn⟩

theorem mem_doubles (h : outcome ∈ report.outcomes) :
    ∀ x ∈ outcome.2.doubles, x ∈ report.doubles := fun _ hx => List.mem_flatMap.mpr ⟨_, h, hx⟩

theorem written (report : Report) : (toJson report : Json).Written := by
  have houtcomes : ∀ outcome ∈ report.outcomes, (toJson outcome : Json).Written := by
    rintro ⟨check, status⟩ -
    have hstatus : (toJson status : Json).Written := by
      cases status with
      | passed => exact .string "Passed"
      | skipped => exact .string "Skipped"
      | failed error => exact .variant _ error.written
    refine .array fun item hitem => ?_
    rcases List.mem_cons.mp hitem with rfl | hitem
    · exact check.written
    · cases List.mem_singleton.mp hitem
      exact hstatus
  refine .record fun field hfield => ?_
  cases List.mem_singleton.mp hfield
  exact .ofList houtcomes

/-- A report is read by its outcomes. -/
theorem ofJson?_eq (report : Report) : (ofJson? (toJson report) : Option Report) =
    (Json.ofList report.outcomes).list?.map Report.mk := by
  rw [Option.map_eq_bind]
  exact Json.fields?_record_bind ["outcomes"] rfl (by decide)

theorem ofJson?_outcome (check : Check) (status : Status) :
    (ofJson? (toJson (check, status)) : Option (Check × Status)) =
      (ofJson? (toJson status)).map (check, ·) := by
  show (do return (← ofJson? (toJson check), ← ofJson? (toJson status))) = _
  rw [check.ofJson?_toJson, Option.map_eq_bind]
  rfl

/-- A report is read back if the errors of its failures are. -/
theorem ofJson?_of_errors (h : ∀ outcome ∈ report.outcomes, ∀ error,
    outcome.2 = .failed error → ofJson? (toJson error) = some error) :
    ofJson? (toJson report) = some report := by
  have houtcomes : ∀ outcome ∈ report.outcomes, ofJson? (toJson outcome) = some outcome := by
    rintro ⟨check, status⟩ hmem
    rw [ofJson?_outcome, Status.ofJson?_toJson (h _ hmem)]
    rfl
  rw [ofJson?_eq, Json.list?_ofList houtcomes]
  rfl

/-- A report is read back if its counts and positions are words and its doubles are finite. -/
theorem ofJson?_toJson (hsizes : ∀ n ∈ report.sizes, n < UInt64.size)
    (hdoubles : ∀ x ∈ report.doubles, x.IsFinite) :
    ofJson? (toJson report) = some report := by
  refine ofJson?_of_errors fun outcome hmem error herror => ?_
  have hmemSizes := mem_sizes hmem
  have hmemDoubles := mem_doubles hmem
  rw [herror] at hmemSizes hmemDoubles
  exact MatrixError.ofJson?_toJson (fun n hn => hsizes n (hmemSizes n hn))
    fun x hx => hdoubles x (hmemDoubles x hx)

/-- A report with a null for a double is refused. -/
theorem ofJson?_eq_none (h : ∃ x ∈ report.doubles, ¬ x.IsFinite) :
    (ofJson? (toJson report) : Option Report) = none := by
  obtain ⟨x, hx, hinfinite⟩ := h
  obtain ⟨⟨check, status⟩, hmem, hx⟩ := List.mem_flatMap.mp hx
  have hstatus : (ofJson? (toJson status) : Option Status) = none := by
    cases status with
    | failed error =>
      show (ofJson? (toJson error)).bind (fun error => some (Status.failed error)) = _
      rw [MatrixError.ofJson?_eq_none ⟨x, hx, hinfinite⟩]
      rfl
    | _ => cases hx
  have houtcome : (ofJson? (toJson (check, status)) : Option (Check × Status)) = none := by
    rw [ofJson?_outcome, hstatus]
    rfl
  rw [ofJson?_eq, Json.list?_ofList_eq_none ⟨_, hmem, houtcome⟩]
  rfl

/-- **The text of a report is read back exactly if its doubles are finite**, and refused if one is
not. -/
theorem ofText?_render {spacing : Spacing} (hspacing : spacing.Blank)
    (hsizes : ∀ n ∈ report.sizes, n < UInt64.size) :
    JsonForm.ofText? ((toJson report).render spacing) =
      if ∀ x ∈ report.doubles, x.IsFinite then some report else none := by
  unfold JsonForm.ofText?
  rw [report.written.parse?_render hspacing, Option.bind_some]
  split
  · rename_i hfinite
    exact ofJson?_toJson hsizes hfinite
  · rename_i hinfinite
    push Not at hinfinite
    exact ofJson?_eq_none hinfinite

end Report

end SparseDatasets
