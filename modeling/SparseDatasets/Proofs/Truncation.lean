import SparseDatasets.Dataset.Emission
import SparseDatasets.Proofs.ScaledColumns

/-!
# Limited outputs

An output that holds a limited number of bytes keeps the front of what it is given, wherever the
limit falls. So it is known from the texts of the emissions alone what a limited output holds
afterwards and which emissions fail: those that have something to write and end behind the limit.
All others end as they do on an unlimited output.

- `Sink.cut`: an output that kept what lies within its limit; `Sink.write_cut`, `Sink.run_cut` and
  `Sink.emit_cut` give it bytes, a script and emissions.
- `Emission.text`, `Emission.result`: what comes of an emission on an unlimited output.
- `Emission.result_eq`: only a column that overflows ends an emission by itself.
- `Sink.emit_limited`: **a limit only ever truncates.**
-/

namespace SparseDatasets

/-! ## Outputs cut at their limit -/

namespace Sink

/-- An output that was given some bytes and kept those within its limit. -/
def cut (limit : Nat) (given : ByteArray) : Sink := ⟨some limit, given.extract 0 limit⟩

variable {limit : Nat} {given : ByteArray}

theorem empty_eq_cut : empty (some limit) = cut limit .empty := by
  rw [cut, extract_empty, empty]

/-- More bytes fit if they end within the limit or if there are none. -/
theorem write_cut (bytes : ByteArray) : (cut limit given).write bytes =
    (decide (bytes.size = 0 ∨ given.size + bytes.size ≤ limit), cut limit (given ++ bytes)) := by
  have hroom : limit - (given.extract 0 limit).size = limit - given.size := by
    rw [ByteArray.size_extract]
    omega
  rw [cut, write_limited, hroom, cut, ByteArray.extract_append, Nat.zero_sub, Prod.mk.injEq]
  refine ⟨?_, rfl⟩
  rw [decide_eq_decide]
  omega

/-- A script ends as it does by itself if its text fits. -/
theorem run_cut (script : Script) : (cut limit given).run script =
    (if script.text.toUTF8.size = 0 ∨ given.size + script.text.toUTF8.size ≤ limit
      then script.error?.elim (.ok ()) .error else .error .outputFull,
      cut limit (given ++ script.text.toUTF8)) := by
  simp only [run_eq, write_cut, decide_eq_true_iff]

end Sink

/-! ## Errors of emissions -/

/-- Scripts in sequence end in an error of one of them. -/
theorem Script.error?_sequence {scripts : List Script} {error : DatasetError}
    (h : (sequence scripts).error? = some error) : ∃ s ∈ scripts, s.error? = some error := by
  induction scripts with
  | nil => cases h
  | cons first scripts ih =>
    cases hfirst : first.error? with
    | some other =>
      -- the first error ends the sequence
      refine ⟨first, List.mem_cons_self, ?_⟩
      rw [sequence, List.foldr_cons, andThen, hfirst] at h
      exact h
    | none =>
      rw [sequence, List.foldr_cons, andThen, hfirst] at h
      obtain ⟨s, hs, herror⟩ := ih h
      exact ⟨s, List.mem_cons_of_mem _ hs, herror⟩

/-- Encoding columns fails only where one overflows. -/
theorem ColumnEncoding.eq_columnOverflow {encoding : ColumnEncoding} {columns : Array UInt32}
    {error : DatasetError} (h : encoding.apply columns = .error error) :
    ∃ col elementBytes, error = .columnOverflow col elementBytes := by
  cases encoding with
  | logical => cases h
  | byteOffset elementBytes =>
    obtain ⟨col, rfl, -⟩ := apply_eq_error_iff.mp h
    exact ⟨col, elementBytes, rfl⟩

/-- So does writing a compressed matrix. -/
theorem Script.eq_columnOverflow_of_csr {α : Type} [LittleEndian α] {config : EmissionConfig}
    {names : CsrNames} {m : Csr α} {error : DatasetError}
    (h : (csr config names m).error? = some error) :
    ∃ col elementBytes, error = .columnOverflow col elementBytes := by
  rw [csr] at h
  cases hcolumns : config.columnEncoding.apply m.colIdx with
  | error other =>
    rw [hcolumns] at h
    cases h
    exact ColumnEncoding.eq_columnOverflow hcolumns
  | ok columns =>
    rw [hcolumns] at h
    cases h

namespace Emission

/-- The text that an emission leaves on an unlimited output. -/
def text (config : EmissionConfig) (emission : Emission) : ByteArray :=
  ((Sink.empty none).run (emission.script config)).2.held

/-- How an emission to an unlimited output ends. -/
def result (config : EmissionConfig) (emission : Emission) : Except DatasetError Unit :=
  ((Sink.empty none).run (emission.script config)).1

/-- The texts of emissions one behind another. -/
def texts (config : EmissionConfig) : List Emission → ByteArray
  | [] => .empty
  | emission :: emissions => emission.text config ++ texts config emissions

variable (config : EmissionConfig)

theorem text_eq (emission : Emission) :
    emission.text config = (emission.script config).text.toUTF8 := by
  rw [text, Sink.empty, Sink.run_unlimited, ByteArray.empty_append]

theorem result_eq_elim (emission : Emission) :
    emission.result config = (emission.script config).error?.elim (.ok ()) .error := by
  rw [result, Sink.empty, Sink.run_unlimited]

theorem eq_columnOverflow {config : EmissionConfig} {emission : Emission} {error : DatasetError}
    (h : (emission.script config).error? = some error) :
    ∃ col elementBytes, error = .columnOverflow col elementBytes := by
  cases emission with
  | dataSection => cases h
  | scalar name x => cases h
  | array name xs => cases h
  | csr names m => exact Script.eq_columnOverflow_of_csr h
  | matrixVector dataset =>
    obtain ⟨s, hs, herror⟩ := Script.error?_sequence h
    simp only [List.mem_cons, List.not_mem_nil, or_false] at hs
    obtain rfl | rfl | rfl | rfl | rfl | rfl | rfl := hs <;>
      first | cases herror | exact Script.eq_columnOverflow_of_csr herror
  | conjugateGradient dataset =>
    obtain ⟨s, hs, herror⟩ := Script.error?_sequence h
    simp only [List.mem_cons, List.not_mem_nil, or_false] at hs
    obtain rfl | rfl | rfl | rfl | rfl | rfl | rfl | rfl | rfl | rfl | rfl | rfl := hs <;>
      first | cases herror | exact Script.eq_columnOverflow_of_csr herror

/-- Only a column that overflows ends an emission by itself. -/
theorem result_eq (emission : Emission) : emission.result config = .ok () ∨
    ∃ col elementBytes, emission.result config = .error (.columnOverflow col elementBytes) := by
  rw [result_eq_elim]
  cases herror : (emission.script config).error? with
  | none => exact .inl rfl
  | some error =>
    obtain ⟨col, elementBytes, rfl⟩ := eq_columnOverflow herror
    exact .inr ⟨col, elementBytes, rfl⟩

theorem result_ne_output (emission : Emission) :
    ¬ ∃ reason, emission.result config = .error (.output reason) := by
  rintro ⟨reason, hreason⟩
  obtain hok | ⟨col, elementBytes, hoverflow⟩ := result_eq config emission
  · cases hok.symm.trans hreason
  · cases hoverflow.symm.trans hreason

end Emission

/-! ## Emissions one after another -/

namespace Sink

variable (config : EmissionConfig)

theorem emit_cons (sink : Sink) (emission : Emission) (emissions : List Emission) :
    sink.emit config (emission :: emissions) =
      ((sink.run (emission.script config)).1 ::
        ((sink.run (emission.script config)).2.emit config emissions).1,
        ((sink.run (emission.script config)).2.emit config emissions).2) :=
  rfl

/-- An unlimited output takes all the texts. -/
theorem emit_unlimited (held : ByteArray) (emissions : List Emission) :
    (⟨none, held⟩ : Sink).emit config emissions =
      (emissions.map (·.result config), ⟨none, held ++ Emission.texts config emissions⟩) := by
  induction emissions generalizing held with
  | nil => rw [Emission.texts, ByteArray.append_empty, emit, List.map_nil]
  | cons emission emissions ih =>
    rw [emit_cons, run_unlimited, ih, List.map_cons, Emission.result_eq_elim, Emission.texts,
      Emission.text_eq, ByteArray.append_assoc]

/-- An output cut at its limit stays one. -/
theorem emit_cut (limit : Nat) (given : ByteArray) (emissions : List Emission) :
    ((cut limit given).emit config emissions).2 =
      cut limit (given ++ Emission.texts config emissions) := by
  induction emissions generalizing given with
  | nil => rw [Emission.texts, ByteArray.append_empty, emit]
  | cons emission emissions ih =>
    rw [emit_cons, run_cut, ih, Emission.texts, Emission.text_eq, ByteArray.append_assoc]

theorem length_emit (sink : Sink) (emissions : List Emission) :
    (sink.emit config emissions).1.length = emissions.length := by
  induction emissions generalizing sink with
  | nil => rfl
  | cons emission emissions ih =>
    rw [emit_cons, List.length_cons, List.length_cons, ih]

/-- An emission ends as by itself if it has nothing to write or ends within the limit. -/
theorem getElem?_emit_cut (limit : Nat) (given : ByteArray) {emissions : List Emission} {k : Nat}
    {emission : Emission} (h : emissions[k]? = some emission) :
    ((cut limit given).emit config emissions).1[k]? =
      some (if (emission.text config).size = 0 ∨
          given.size + (Emission.texts config (emissions.take (k + 1))).size ≤ limit
        then emission.result config else .error .outputFull) := by
  -- what the first emission writes counts as given to those behind it, whether it fits or not
  induction emissions generalizing given k with
  | nil => cases h
  | cons first emissions ih =>
    rw [emit_cons, run_cut, List.take_succ_cons, Emission.texts, ByteArray.size_append]
    cases k with
    | zero =>
      cases h
      rw [List.take_zero, Emission.texts, ByteArray.size_empty, Nat.add_zero,
        Emission.result_eq_elim, Emission.text_eq, List.getElem?_cons_zero]
    | succ k =>
      rw [List.getElem?_cons_succ] at h ⊢
      rw [ih _ h, ByteArray.size_append, Emission.text_eq config first, Nat.add_assoc]

/-- **A limit only ever truncates.** What is emitted to an output with a limit is the front of what
is emitted to one without. An emission fails for the output iff it has something to write and ends
behind the limit. All others end as they do on an unlimited output: well, or with a column that
overflows. -/
theorem emit_limited (config : EmissionConfig) (emissions : List Emission) (limit : Nat) :
    (empty none).emit config emissions =
      (emissions.map (·.result config), ⟨none, Emission.texts config emissions⟩) ∧
    ((empty (some limit)).emit config emissions).2.held =
      (Emission.texts config emissions).extract 0
        (min limit (Emission.texts config emissions).size) ∧
    ((empty (some limit)).emit config emissions).1.length = emissions.length ∧
    ∀ k : Fin emissions.length, ∃ result,
      ((empty (some limit)).emit config emissions).1[k.val]? = some result ∧
      ((∃ reason, result = .error (.output reason)) ↔
        (emissions[k].text config).size ≠ 0 ∧
          limit < (Emission.texts config (emissions.take (k + 1))).size) ∧
      ((∃ reason, result = .error (.output reason)) ∨ result = emissions[k].result config) ∧
      (emissions[k].result config = .ok () ∨
        ∃ col elementBytes,
          emissions[k].result config = .error (.columnOverflow col elementBytes)) := by
  refine ⟨?_, ?_, length_emit config _ emissions, ?_⟩
  · rw [empty, emit_unlimited, ByteArray.empty_append]
  · rw [empty_eq_cut, emit_cut, ByteArray.empty_append, cut]
    exact (extract_min_size ..).symm
  · intro k
    have hk : emissions[k.val]? = some emissions[k] := List.getElem?_eq_getElem k.isLt
    have hresult := getElem?_emit_cut config limit .empty hk
    rw [ByteArray.size_empty, Nat.zero_add, ← empty_eq_cut] at hresult
    refine ⟨_, hresult, ?_, ?_, Emission.result_eq config _⟩
    · split
      · -- an emission that fits fails for no output, as it does not by itself
        rename_i hfits
        refine iff_of_false (Emission.result_ne_output config _) ?_
        rintro ⟨hsize, hbehind⟩
        exact hfits.elim hsize (Nat.not_le_of_lt hbehind)
      · rename_i hcut
        obtain ⟨hsize, hbehind⟩ := not_or.mp hcut
        exact iff_of_true ⟨_, rfl⟩ ⟨hsize, Nat.lt_of_not_le hbehind⟩
    · split
      · exact .inr rfl
      · exact .inl ⟨_, rfl⟩

end Sink

end SparseDatasets
