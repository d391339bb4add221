import Mathlib.Data.List.Basic
import SparseDatasets.Emission.Script

/-!
# Outputs

It does not matter how a text is cut into the parts that an output is given, as nothing is tried
behind the first part that does not fit. So giving a script to an output comes down to one writing
of its text. An output without a limit keeps all of it, and the emission ends as the script does.
When no line of the script contains a newline the lines are read back from that text.

- `Sink.write_append`: what is given in two parts; `Sink.writeLines_eq` and `Sink.run_eq` get from
  it to the whole text.
- `Sink.run_unlimited`: **what an emission to an unlimited output does.**
- `Sink.run_unlimited_eq_ok_iff`: the emission succeeds iff the script does not end in an error.
- `textLines`: the lines of a text; `textLines_text` reads back those of a script.
-/

namespace SparseDatasets

/-! ## Writing -/

/-- The front of some bytes ends where they do at the latest. -/
theorem extract_min_size (bytes : ByteArray) (count : Nat) :
    bytes.extract 0 (min count bytes.size) = bytes.extract 0 count := by
  conv_rhs => rw [← ByteArray.extract_zero_size (b := bytes)]
  rw [ByteArray.extract_extract, Nat.zero_add, Nat.zero_add]

theorem extract_empty (count : Nat) : ByteArray.empty.extract 0 count = .empty :=
  ByteArray.extract_eq_empty_iff.mpr (Nat.min_le_right ..)

namespace Sink

/-- An unlimited output keeps what is written to it. -/
theorem write_unlimited (held bytes : ByteArray) :
    (⟨none, held⟩ : Sink).write bytes = (true, ⟨none, held ++ bytes⟩) := by
  show (bytes.size == bytes.size, (⟨none, held ++ bytes.extract 0 bytes.size⟩ : Sink)) = _
  rw [ByteArray.extract_zero_size, beq_self_eq_true]

/-- A limited output keeps the front that fits. -/
theorem write_limited (limit : Nat) (held bytes : ByteArray) :
    (⟨some limit, held⟩ : Sink).write bytes =
      (decide (bytes.size ≤ limit - held.size),
        ⟨some limit, held ++ bytes.extract 0 (limit - held.size)⟩) := by
  have hflag : (min bytes.size (limit - held.size) == bytes.size) =
      decide (bytes.size ≤ limit - held.size) := by
    rw [Bool.eq_iff_iff, beq_iff_eq, decide_eq_true_iff]
    omega
  show (min bytes.size (limit - held.size) == bytes.size, (⟨some limit,
    held ++ bytes.extract 0 (min bytes.size (limit - held.size))⟩ : Sink)) = _
  rw [hflag, Nat.min_comm, extract_min_size]

/-- Nothing always fits. -/
theorem write_empty (sink : Sink) : sink.write .empty = (true, sink) := by
  obtain ⟨_ | limit, held⟩ := sink
  · rw [write_unlimited, ByteArray.append_empty]
  · rw [write_limited, extract_empty, ByteArray.append_empty]
    exact congrArg (·, _) (decide_eq_true (Nat.zero_le _))

/-- Bytes in two parts are kept as they are when given at once, and the second part is not tried
if the first does not fit. -/
theorem write_append (sink : Sink) (first second : ByteArray) :
    sink.write (first ++ second) =
      if (sink.write first).1 = true then (sink.write first).2.write second
      else (false, (sink.write first).2) := by
  obtain ⟨_ | limit, held⟩ := sink
  · simp only [write_unlimited, if_true, ByteArray.append_assoc]
  · simp only [write_limited, decide_eq_true_iff, ByteArray.size_append]
    rw [ByteArray.extract_append, Nat.zero_sub]
    by_cases hfits : first.size ≤ limit - held.size
    · -- the first part is kept whole, and the second has the room behind it
      have hfirst : first.extract 0 (limit - held.size) = first := by
        rw [← Nat.max_eq_left hfits, ByteArray.extract_zero_max_size]
      rw [if_pos hfits, hfirst, ← Nat.sub_add_eq, ByteArray.append_assoc, Prod.mk.injEq]
      refine ⟨?_, rfl⟩
      rw [decide_eq_decide]
      omega
    · -- no room is left for any of the second part
      have hrest : second.extract 0 (limit - held.size - first.size) = .empty := by
        rw [ByteArray.extract_eq_empty_iff]
        omega
      rw [if_neg hfits, hrest, ByteArray.append_empty, Prod.mk.injEq]
      refine ⟨?_, rfl⟩
      rw [decide_eq_false_iff_not]
      omega

/-- Lines are kept as their text is. -/
theorem writeLines_eq (sink : Sink) (lines : List String) :
    sink.writeLines lines = sink.write (String.join (lines.map (· ++ "\n"))).toUTF8 := by
  induction lines generalizing sink with
  | nil => exact (write_empty sink).symm
  | cons line lines ih =>
    have htext : (String.join ((line :: lines).map (· ++ "\n"))).toUTF8 =
        (line ++ "\n").toUTF8 ++ (String.join (lines.map (· ++ "\n"))).toUTF8 := by
      rw [List.map_cons, String.join_cons]
      exact String.toByteArray_append
    rw [htext, write_append, writeLines]
    obtain ⟨_ | _, rest⟩ := sink.write (line ++ "\n").toUTF8
    · rfl
    · exact ih rest

/-- An emission gives the output its text, and ends as the script does if all of it fits. -/
theorem run_eq (sink : Sink) (script : Script) : sink.run script =
    (if (sink.write script.text.toUTF8).1 = true then script.error?.elim (.ok ()) .error
      else .error .outputFull, (sink.write script.text.toUTF8).2) := by
  obtain ⟨lines, error?⟩ := script
  rw [run, writeLines_eq, Script.text]
  obtain ⟨_ | _, rest⟩ := sink.write (String.join (lines.map (· ++ "\n"))).toUTF8
  · rfl
  · cases error? <;> rfl

/-- **What an emission to an unlimited output does**: the output takes the whole text, and the
emission ends as the script does. -/
theorem run_unlimited (held : ByteArray) (script : Script) :
    (⟨none, held⟩ : Sink).run script =
      (script.error?.elim (.ok ()) .error, ⟨none, held ++ script.text.toUTF8⟩) := by
  rw [run_eq, write_unlimited]
  rfl

/-- An emission to an unlimited output succeeds iff the script does not end in an error. -/
theorem run_unlimited_eq_ok_iff {held : ByteArray} {script : Script} {sink : Sink} :
    (⟨none, held⟩ : Sink).run script = (.ok (), sink) ↔
      script.error? = none ∧ sink = ⟨none, held ++ script.text.toUTF8⟩ := by
  rw [run_unlimited]
  cases script.error? <;> simp [eq_comm]

/-- An empty unlimited output holds the text of a script afterwards. -/
theorem run_empty_eq_ok_iff {script : Script} {sink : Sink} :
    (empty none).run script = (.ok (), sink) ↔
      script.error? = none ∧ sink = ⟨none, script.text.toUTF8⟩ := by
  rw [empty, run_unlimited_eq_ok_iff, ByteArray.empty_append]

theorem exists_run_empty {script : Script} (h : script.error? = none) :
    ∃ sink, (empty none).run script = (.ok (), sink) ∧ sink.held = script.text.toUTF8 :=
  ⟨_, run_empty_eq_ok_iff.mpr ⟨h, rfl⟩, rfl⟩

/-- Scripts that leave the same in an unlimited output have the same text. -/
theorem text_eq_of_run_eq {script script' : Script} {sink : Sink}
    (h : (empty none).run script = (.ok (), sink))
    (h' : (empty none).run script' = (.ok (), sink)) : script.text = script'.text := by
  have hsink := (run_empty_eq_ok_iff.mp h).2.symm.trans (run_empty_eq_ok_iff.mp h').2
  exact String.toByteArray_inj.mp (congrArg held hsink)

end Sink

/-! ## Reading -/

/-- The lines of a text: what stands between its newlines, before the first and behind the
last. -/
def textLines (text : String) : List String := (text.toList.splitOn '\n').map String.ofList

/-- The lines that a newline ends are read back, with what stands behind the last newline. -/
theorem textLines_join {lines : List String} (h : ∀ line ∈ lines, '\n' ∉ line.toList) :
    textLines (String.join (lines.map (· ++ "\n"))) = lines ++ [""] := by
  induction lines with
  | nil => rfl
  | cons line lines ih =>
    have hlist : (String.join ((line :: lines).map (· ++ "\n"))).toList =
        line.toList ++ '\n' :: (String.join (lines.map (· ++ "\n"))).toList := by
      simp only [List.map_cons, String.join_cons, String.toList_append, List.append_assoc]
      rfl
    rw [textLines, hlist,
      List.splitOn_append_cons_self_of_not_mem (h line List.mem_cons_self), List.map_cons,
      String.ofList_toList, List.cons_append,
      ← ih fun other hother => h other (List.mem_cons_of_mem _ hother), textLines]

theorem textLines_text {script : Script} (h : ∀ line ∈ script.lines, '\n' ∉ line.toList) :
    textLines script.text = script.lines ++ [""] :=
  textLines_join h

end SparseDatasets
