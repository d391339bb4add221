import SparseDatasets.Proofs.Encoding

/-!
# What the encoder refuses

The encoder checks its whole input before it looks up the first value. Its conditions
overlap, so which of them is named is a matter of order: the shape comes first, then
its cells, then the two numbers that must fit an index, and last the offsets from the
front. An offset is compared with its neighbour only, and the first one that is out of
range or not above the one before it is named.

- `InputDefect.PositionDefect`: what is wrong with the offset at a position.
- `InputDefect.Refuses`: the first condition that an input does not meet.
- `InputDefect.firstPosition?_eq_some_iff`: the scan names the first offset at fault.
- `Csr.Ends`, `Csr.encode_ends`: the three ways that the encoder may end.
- `Csr.encode_refuses`: **the encoder refuses what is outside its contract** and nothing else,
  names the first violation, and has not called the lookup then.
-/

namespace SparseDatasets

namespace InputDefect

/-! ## What is wrong, and what comes first -/

/-- What is wrong with the offset at a position: it is out of range, or else it is not above the
offset before it. -/
inductive PositionDefect (limit : Nat) (positions : List Nat) (p : Nat) : InputDefect → Prop
  | outOfRange {index : Nat} (hget : positions[p]? = some index) (hlimit : limit ≤ index) :
    PositionDefect limit positions p (.outOfRange p index limit)
  | notAscending {before index : Nat} (hget : positions[p]? = some index) (hlimit : index < limit)
    (hlater : 0 < p) (hbefore : positions[p - 1]? = some before) (hle : index ≤ before) :
    PositionDefect limit positions p (.notAscending p before index)

/-- The first condition of the encoder that an input does not meet. -/
inductive Refuses (rows cols : Nat) (positions : List Nat) : InputDefect → Prop
  | empty (hempty : rows = 0 ∨ cols = 0) :
    Refuses rows cols positions (.emptyDimension rows cols)
  | cells (hrows : 0 < rows) (hcols : 0 < cols) (hcells : wordLimit ≤ rows * cols) :
    Refuses rows cols positions (.dimensionOverflow rows cols)
  | columns (hrows : 0 < rows) (hcols : 0 < cols) (hcells : rows * cols < wordLimit)
    (hcolumns : indexLimit ≤ cols) :
    Refuses rows cols positions (.indexOverflow cols)
  | count (hrows : 0 < rows) (hcols : 0 < cols) (hcells : rows * cols < wordLimit)
    (hcolumns : cols < indexLimit) (hcount : indexLimit ≤ positions.length) :
    Refuses rows cols positions (.indexOverflow positions.length)
  | position {p : Nat} {defect : InputDefect} (hrows : 0 < rows) (hcols : 0 < cols)
    (hcells : rows * cols < wordLimit) (hcolumns : cols < indexLimit)
    (hcount : positions.length < indexLimit)
    (hdefect : PositionDefect (rows * cols) positions p defect)
    (hbefore : ∀ q < p, ∀ d, ¬ PositionDefect (rows * cols) positions q d) :
    Refuses rows cols positions defect

/-! ## The scan of the offsets -/

variable {limit index : Nat} {seen rest : List Nat} {defect : InputDefect}

/-- What is wrong with the offset that is scanned next. -/
theorem positionDefect_next_iff :
    PositionDefect limit (seen ++ index :: rest) seen.length defect ↔
      limit ≤ index ∧ defect = .outOfRange seen.length index limit ∨
      index < limit ∧ ∃ before, seen.getLast? = some before ∧ index ≤ before ∧
        defect = .notAscending seen.length before index := by
  have hnext : (seen ++ index :: rest)[seen.length]? = some index := by simp
  have hlast : ∀ hlater : 0 < seen.length,
      (seen ++ index :: rest)[seen.length - 1]? = seen.getLast? := by
    intro hlater
    rw [List.getElem?_append_left (by omega), List.getLast?_eq_getElem?]
  constructor
  · intro h
    cases h with
    | outOfRange hget hlimit =>
      cases hnext.symm.trans hget
      exact .inl ⟨hlimit, rfl⟩
    | notAscending hget hlimit hlater hbefore hle =>
      cases hnext.symm.trans hget
      exact .inr ⟨hlimit, _, (hlast hlater).symm.trans hbefore, hle, rfl⟩
  · rintro (⟨hlimit, rfl⟩ | ⟨hlimit, before, hgetLast, hle, rfl⟩)
    · exact .outOfRange hnext hlimit
    · have hlater : 0 < seen.length := by
        refine List.length_pos_iff.mpr ?_
        rintro rfl
        cases hgetLast
      exact .notAscending hnext hlimit hlater ((hlast hlater).trans hgetLast) hle

/-- The scan stops at an offset at fault. -/
theorem firstPosition?_of_defect
    (h : PositionDefect limit (seen ++ index :: rest) seen.length defect) :
    firstPosition? limit seen.length seen.getLast? (index :: rest) = some defect := by
  rcases positionDefect_next_iff.mp h with ⟨hlimit, rfl⟩ | ⟨hlimit, before, hlast, hle, rfl⟩
  · simp [firstPosition?, hlimit]
  · simp [firstPosition?, Nat.not_le.mpr hlimit, hlast, hle]

/-- The scan goes on behind an offset that is not at fault. -/
theorem firstPosition?_of_clean
    (h : ∀ d, ¬ PositionDefect limit (seen ++ index :: rest) seen.length d) :
    firstPosition? limit seen.length seen.getLast? (index :: rest) =
      firstPosition? limit (seen.length + 1) (some index) rest := by
  have hlimit : ¬ limit ≤ index := fun hlimit =>
    h _ (positionDefect_next_iff.mpr (.inl ⟨hlimit, rfl⟩))
  have hasc : ∀ before, seen.getLast? = some before → ¬ index ≤ before := by
    intro before hlast hle
    exact h _ (positionDefect_next_iff.mpr
      (.inr ⟨Nat.lt_of_not_le hlimit, before, hlast, hle, rfl⟩))
  cases hlast : seen.getLast? with
  | none => simp [firstPosition?, hlimit]
  | some before => simp [firstPosition?, hlimit, hasc before hlast]

/-- The scan names the first offset at fault among those that it has not seen yet. -/
theorem firstPosition?_eq_some_iff :
    firstPosition? limit seen.length seen.getLast? rest = some defect ↔
      ∃ p, seen.length ≤ p ∧ PositionDefect limit (seen ++ rest) p defect ∧
        ∀ q, seen.length ≤ q → q < p → ∀ d, ¬ PositionDefect limit (seen ++ rest) q d := by
  induction rest generalizing seen with
  | nil =>
    constructor
    · intro h
      cases h
    · rintro ⟨p, hge, hdefect, -⟩
      -- there is no offset at or after the end
      have hend : (seen ++ [])[p]? = none := by simpa using hge
      cases hdefect with
      | outOfRange hget => rw [hend] at hget; cases hget
      | notAscending hget => rw [hend] at hget; cases hget
  | cons index rest ih =>
    by_cases hclean : ∀ d, ¬ PositionDefect limit (seen ++ index :: rest) seen.length d
    · have hrest := @ih (seen ++ [index])
      rw [List.append_assoc, List.singleton_append, List.length_append, List.length_singleton,
        List.getLast?_concat] at hrest
      rw [firstPosition?_of_clean hclean, hrest]
      constructor
      · rintro ⟨p, hge, hdefect, hbefore⟩
        refine ⟨p, Nat.le_of_succ_le hge, hdefect, fun q hq hqp => ?_⟩
        rcases Nat.eq_or_lt_of_le hq with rfl | hq
        · exact hclean
        · exact hbefore q hq hqp
      · rintro ⟨p, hge, hdefect, hbefore⟩
        rcases Nat.eq_or_lt_of_le hge with rfl | hgt
        · exact absurd hdefect (hclean _)
        · exact ⟨p, hgt, hdefect, fun q hq => hbefore q (Nat.le_of_succ_le hq)⟩
    · obtain ⟨first, hfirst⟩ : ∃ d, PositionDefect limit (seen ++ index :: rest) seen.length d := by
        simpa using hclean
      rw [firstPosition?_of_defect hfirst]
      constructor
      · rintro ⟨⟩
        exact ⟨seen.length, Nat.le_refl _, hfirst, fun q hge hlt => by omega⟩
      · rintro ⟨p, hge, hdefect, hbefore⟩
        rcases Nat.eq_or_lt_of_le hge with rfl | hgt
        · rw [← firstPosition?_of_defect hfirst, firstPosition?_of_defect hdefect]
        · exact absurd hfirst (hbefore _ (Nat.le_refl _) hgt first)

/-- The check names the first condition that is not met. -/
theorem first?_eq_some_iff {rows cols : Nat} {positions : Array Nat} :
    first? rows cols positions = some defect ↔ Refuses rows cols positions.toList defect := by
  have hscan : firstPosition? (rows * cols) 0 none positions.toList = some defect ↔
      ∃ p, PositionDefect (rows * cols) positions.toList p defect ∧
        ∀ q < p, ∀ d, ¬ PositionDefect (rows * cols) positions.toList q d := by
    simpa using @firstPosition?_eq_some_iff (rows * cols) [] positions.toList defect
  constructor
  · intro h
    simp only [first?] at h
    split at h
    · cases h
      exact .empty ‹_›
    split at h
    · cases h
      exact .cells (by omega) (by omega) ‹_›
    split at h
    · cases h
      exact .columns (by omega) (by omega) (by omega) ‹_›
    split at h
    · cases h
      exact .count (by omega) (by omega) (by omega) (by omega) ‹_›
    obtain ⟨p, hdefect, hbefore⟩ := hscan.mp h
    exact .position (by omega) (by omega) (by omega) (by omega)
      (by rw [Array.length_toList]; omega) hdefect hbefore
  · intro h
    cases h with
    | empty hempty => rw [first?, if_pos hempty]
    | cells hrows hcols hcells => rw [first?, if_neg (by omega), if_pos hcells]
    | columns hrows hcols hcells hcolumns =>
      rw [first?, if_neg (by omega), if_neg (by omega), if_pos hcolumns]
    | count hrows hcols hcells hcolumns hcount =>
      rw [Array.length_toList] at hcount
      rw [first?, if_neg (by omega), if_neg (by omega), if_neg (by omega), if_pos hcount,
        Array.length_toList]
    | position hrows hcols hcells hcolumns hcount hdefect hbefore =>
      rw [Array.length_toList] at hcount
      rw [first?, if_neg (by omega), if_neg (by omega), if_neg (by omega), if_neg (by omega)]
      exact hscan.mpr ⟨_, hdefect, hbefore⟩

end InputDefect

/-! ## Refusal -/

namespace Csr

variable {σ α : Type}

/-- What the encoder may end with. Only where a matrix is made have calls been made. -/
inductive Ends (rows cols : Nat) (positions : Array Nat) (s : σ) :
    Except AccessFault (Except MatrixError (Csr α)) × σ → Prop
  | refused {defect : InputDefect} (hcheck : InputDefect.first? rows cols positions = some defect) :
    Ends rows cols positions s (.ok (.error (.input defect)), s)
  | overflow (hcheck : InputDefect.first? rows cols positions = none)
    (hmany : wordLimit ≤ rows + 1) : Ends rows cols positions s (.error .overflow, s)
  | encoded {m : Csr α} {t : σ} (hcheck : InputDefect.first? rows cols positions = none)
    (hfew : rows + 1 < wordLimit) : Ends rows cols positions s (.ok (.ok m), t)

theorem encode_ends (rows cols : Nat) (positions : Array Nat) (lookup : Nat → StateM σ α) (s : σ) :
    Ends rows cols positions s ((Csr.encode rows cols positions lookup).run s) := by
  cases hcheck : InputDefect.first? rows cols positions with
  | some defect =>
    rw [encode_of_defect hcheck]
    exact .refused hcheck
  | none =>
    rcases Nat.lt_or_ge (rows + 1) wordLimit with hfew | hmany
    · rw [encode_of_countable hcheck hfew]
      exact .encoded hcheck hfew
    · rw [encode_of_overflow hcheck hmany]
      exact .overflow hcheck hmany

/-- **The encoder refuses exactly the inputs outside its contract.** It fails with the first
condition that the input does not meet, and then no call of the lookup has touched its state.
Input that meets all of them gives a matrix, unless a word cannot count its row pointers; no call
has been made then either. -/
theorem encode_refuses (rows cols : Nat) (positions : Array Nat)
    (lookup : Nat → StateM σ α) (s : σ) :
    (∀ error t, (Csr.encode rows cols positions lookup).run s = (.ok (.error error), t) ↔
      t = s ∧ ∃ defect, error = .input defect ∧
        InputDefect.Refuses rows cols positions.toList defect) ∧
    ((∃ m t, (Csr.encode rows cols positions lookup).run s = (.ok (.ok m), t)) ↔
      Admissible rows cols positions.toList ∧ rows + 1 < wordLimit) ∧
    ∀ fault t, (Csr.encode rows cols positions lookup).run s = (.error fault, t) ↔
      t = s ∧ fault = .overflow ∧ Admissible rows cols positions.toList ∧
        wordLimit ≤ rows + 1 := by
  rw [← InputDefect.first?_eq_none_iff]
  simp only [← InputDefect.first?_eq_some_iff]
  have hends := encode_ends rows cols positions lookup s
  refine ⟨fun error t => ⟨fun h => ?_, ?_⟩, ⟨?_, ?_⟩, fun fault t => ⟨fun h => ?_, ?_⟩⟩
  · rw [h] at hends
    cases hends with
    | refused hcheck => exact ⟨rfl, _, rfl, hcheck⟩
  · rintro ⟨rfl, defect, rfl, hcheck⟩
    rw [encode_of_defect hcheck]
    rfl
  · rintro ⟨m, t, h⟩
    rw [h] at hends
    cases hends with
    | encoded hcheck hfew => exact ⟨hcheck, hfew⟩
  · rintro ⟨hcheck, hfew⟩
    rw [encode_of_countable hcheck hfew]
    exact ⟨_, _, rfl⟩
  · rw [h] at hends
    cases hends with
    | overflow hcheck hmany => exact ⟨rfl, rfl, hcheck, hmany⟩
  · rintro ⟨rfl, rfl, hcheck, hmany⟩
    rw [encode_of_overflow hcheck hmany]
    rfl

end Csr

end SparseDatasets
