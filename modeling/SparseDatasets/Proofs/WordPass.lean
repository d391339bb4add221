import SparseDatasets.Proofs.Encoding

/-!
# The encoder on words

The encoder of this library counts with natural numbers. Here its pass is written a second time,
with words whose sums and differences wrap, as a machine that makes one turn of one of its loops at
a time. The boundary is always one row ahead, so it can be the number of cells itself, which may be
the greatest word. It never goes beyond: a row is closed only for an offset that lies after it, so
there is a row after it, and that row ends inside the shape. So nothing wraps, and at every state
the encoder can take over and ends where it would have ended. The machine leaves out the values,
with which nothing is computed.

- `WordPass.turn?`, `WordPass.Reaches`: the machine and its runs.
- `WordPass.Exact`: a turn computes on words what it computes on numbers.
- `Frontier.place_of_lt`, `Frontier.place_closeRow`: the encoder's pass, one turn at a time.
- `WordPass.Accounts`: the accounting of the encoder, read off a state of the machine.
- `WordPass.Accounts.turn`, `WordPass.Reaches.accounts`: it holds along every run.
- `WordPass.Reaches.exists_end`: every run can be completed.
- `WordPass.exact_and_ends`: **no step wraps, the loops end, and the arrays are the encoder's.**
-/

namespace SparseDatasets

/-! ## The turns of the encoder -/

namespace Frontier

variable {cols index : Nat} {s : Frontier}

/-- An offset before the boundary is placed in the row that is open. -/
theorem place_of_lt (h : index < s.boundary) : s.place cols index =
    { s with colIdx := s.colIdx.push (index - (s.boundary - cols)).toUInt32 } := by
  rw [place, advance, if_pos (.inl h)]

/-- Closing a row before an offset at or beyond the boundary is part of placing it. -/
theorem place_closeRow (hcols : 0 < cols) (h : s.boundary ≤ index) :
    (s.closeRow cols).place cols index = s.place cols index := by
  have hgo : ¬ (index < s.boundary ∨ cols = 0) := by omega
  rw [place, place, advance.eq_def cols index s, if_neg hgo]

end Frontier

/-! ## The machine -/

/-- What the pass is given. -/
structure WordPass.Input where
  rows : UInt64
  cols : UInt64
  positions : Array UInt64

/-- Where the pass stands: it looks at the first of the offsets that are left, or it closes the rows
that are left, from the given one on. -/
inductive WordPass.Stage where
  | scanning (pending : List UInt64)
  | closing (next : UInt64)

/-- A state of the pass, in words. -/
structure WordPass where
  /-- The offset just after the row that is open. -/
  boundary : UInt64
  /-- The number of rows that are closed. -/
  closed : UInt64
  /-- The number of offsets that are placed. -/
  placed : UInt64
  rowPtr : Array UInt32
  colIdx : Array UInt32
  stage : WordPass.Stage

namespace WordPass

/-- A turn of a loop: a row is closed before the offset, the offset is placed, the offsets are used
up, or a row that is still open at the end is closed. -/
inductive Turn where
  | closeRow
  | place
  | leave
  | fill
deriving DecidableEq

namespace Input

/-- The offsets as numbers. -/
def numbers (input : Input) : Array Nat := input.positions.map UInt64.toNat

/-- The number of offsets, as a word. -/
def count (input : Input) : UInt64 := input.positions.size.toUInt64

/-- What the encoder asks of its input. -/
abbrev Admissible (input : Input) : Prop :=
  SparseDatasets.Admissible input.rows.toNat input.cols.toNat input.numbers.toList

theorem length_numbers (input : Input) : input.numbers.toList.length = input.positions.size := by
  simp [numbers]

namespace Admissible

variable {input : Input}

theorem size_lt (h : input.Admissible) : input.positions.size < indexLimit := by
  rw [← input.length_numbers]
  exact h.length_lt

theorem toNat_count (h : input.Admissible) : input.count.toNat = input.positions.size := by
  rw [count, UInt64.toNat_ofNat']
  exact Nat.mod_eq_of_lt (Nat.lt_trans h.size_lt (by decide))

end Admissible

end Input

def start (input : Input) : WordPass :=
  ⟨input.cols, 0, 0, #[0], #[], .scanning input.positions.toList⟩

def closeRow (cols : UInt64) (s : WordPass) : WordPass :=
  { s with
    boundary := s.boundary + cols
    closed := s.closed + 1
    rowPtr := s.rowPtr.push s.placed.toUInt32 }

def place (cols index : UInt64) (rest : List UInt64) (s : WordPass) : WordPass :=
  { s with
    placed := s.placed + 1
    colIdx := s.colIdx.push (index - (s.boundary - cols)).toUInt32
    stage := .scanning rest }

def leave (s : WordPass) : WordPass := { s with stage := .closing s.closed }

def fill (count next : UInt64) (s : WordPass) : WordPass :=
  { s with
    rowPtr := s.rowPtr.push count.toUInt32
    stage := .closing (next + 1) }

/-- The next turn and the state after it, unless the pass is over. -/
def turn? (input : Input) (s : WordPass) : Option (Turn × WordPass) :=
  match s.stage with
  | .scanning [] => some (.leave, s.leave)
  | .scanning (index :: rest) =>
    if index < s.boundary then some (.place, s.place input.cols index rest)
    else some (.closeRow, s.closeRow input.cols)
  | .closing next =>
    if next < input.rows then some (.fill, s.fill input.count next) else none

/-- The runs of the machine: the turns that were made, and the state after them. -/
inductive Reaches (input : Input) : List Turn → WordPass → Prop
  | start : Reaches input [] (start input)
  | turn {turns : List Turn} {s t : WordPass} {a : Turn} :
    Reaches input turns s → s.turn? input = some (a, t) → Reaches input (turns ++ [a]) t

/-- What a turn needs and does, one rule for each. -/
inductive Turns (input : Input) (s : WordPass) : Turn → WordPass → Prop
  | closeRow {index : UInt64} {rest : List UInt64} (hstage : s.stage = .scanning (index :: rest))
    (hle : s.boundary ≤ index) : Turns input s .closeRow (s.closeRow input.cols)
  | place {index : UInt64} {rest : List UInt64} (hstage : s.stage = .scanning (index :: rest))
    (hlt : index < s.boundary) : Turns input s .place (s.place input.cols index rest)
  | leave (hstage : s.stage = .scanning []) : Turns input s .leave s.leave
  | fill {next : UInt64} (hstage : s.stage = .closing next) (hlt : next < input.rows) :
    Turns input s .fill (s.fill input.count next)

variable {input : Input} {turns : List Turn} {s t : WordPass} {a : Turn}

theorem turns_of_turn? (h : s.turn? input = some (a, t)) : Turns input s a t := by
  unfold turn? at h
  split at h
  · next hstage =>
    cases h
    exact .leave hstage
  · next index rest hstage =>
    split at h
    · next hlt =>
      cases h
      exact .place hstage hlt
    · next hge =>
      cases h
      exact .closeRow hstage (UInt64.not_lt.mp hge)
  · next next hstage =>
    split at h
    · next hlt =>
      cases h
      exact .fill hstage hlt
    · cases h

/-- The pass is over when the last loop has come to the last row. -/
theorem turn?_eq_none_iff :
    s.turn? input = none ↔ ∃ next, s.stage = .closing next ∧ input.rows ≤ next := by
  unfold turn?
  cases hstage : s.stage with
  | scanning pending =>
    cases pending with
    | nil => simp
    | cons index rest => by_cases hlt : index < s.boundary <;> simp [hlt]
  | closing next => by_cases hlt : next < input.rows <;> simp [hlt, ← UInt64.not_lt]

/-- The turns of a run by their kinds. -/
theorem length_turns (turns : List Turn) : turns.length = turns.count .closeRow +
    turns.count .place + turns.count .leave + turns.count .fill := by
  induction turns with
  | nil => rfl
  | cons a turns ih =>
    rw [List.length_cons, ih]
    cases a <;> simp <;> omega

/-! ## Exact turns -/

theorem toNat_add_of_lt {x y : UInt64} (h : x.toNat + y.toNat < wordLimit) :
    (x + y).toNat = x.toNat + y.toNat := by
  rw [UInt64.toNat_add]
  exact Nat.mod_eq_of_lt h

theorem toNat_succ_of_lt {x : UInt64} (h : x.toNat + 1 < wordLimit) :
    (x + 1).toNat = x.toNat + 1 :=
  toNat_add_of_lt (y := 1) h

theorem toNat_toUInt32_of_lt {x : UInt64} (h : x.toNat < indexLimit) :
    x.toUInt32.toNat = x.toNat :=
  Csr.toNat_toUInt32_of_lt h

/-- What a turn computes on words is what it computes on numbers:
1. the boundary moves one row on and stays inside the shape, and the count that is stored is kept;
2. the offset lies in the open row, its column is a difference of what can be subtracted, and it
   lies below the number of columns and is kept when it is stored;
3. nothing is computed;
4. the count that is stored is that of all the offsets. -/
inductive Exact (input : Input) (s : WordPass) : Turn → Prop
  | closeRow
    (inside : s.boundary.toNat + input.cols.toNat ≤ input.rows.toNat * input.cols.toNat)
    (boundary_eq : (s.boundary + input.cols).toNat = s.boundary.toNat + input.cols.toNat)
    (closed_eq : (s.closed + 1).toNat = s.closed.toNat + 1)
    (stored : s.placed.toUInt32.toNat = s.placed.toNat) : Exact input s .closeRow
  | place {index : UInt64} {rest : List UInt64} (hstage : s.stage = .scanning (index :: rest))
    (open_eq : (s.boundary - input.cols).toNat = s.boundary.toNat - input.cols.toNat)
    (cols_le : input.cols.toNat ≤ s.boundary.toNat)
    (open_le : s.boundary - input.cols ≤ index)
    (index_lt : index < s.boundary)
    (column_eq : (index - (s.boundary - input.cols)).toNat =
      index.toNat - (s.boundary.toNat - input.cols.toNat))
    (column_lt : index - (s.boundary - input.cols) < input.cols)
    (stored : (index - (s.boundary - input.cols)).toUInt32.toNat =
      (index - (s.boundary - input.cols)).toNat)
    (placed_eq : (s.placed + 1).toNat = s.placed.toNat + 1) : Exact input s .place
  | leave : Exact input s .leave
  | fill {next : UInt64} (hstage : s.stage = .closing next)
    (next_eq : (next + 1).toNat = next.toNat + 1)
    (stored : input.count.toUInt32.toNat = input.positions.size) : Exact input s .fill

/-! ## The accounting -/

/-- The state of the encoder's pass that a state of the machine stands for. The pointers are those
that were written before the last loop. -/
def frontier (s : WordPass) (pointers : Array UInt32) : Frontier :=
  ⟨s.boundary.toNat, s.closed.toNat, pointers, s.colIdx⟩

/-- The accounting of the offsets and of the last loop, beside a state of the encoder's pass:
1. the offsets placed and the ones left are those of the input, none of the ones left is before the
   open row, and the encoder's pass goes on from the state to where it ends;
2. all offsets are placed, the encoder's pass ends in the state, and each turn of the last loop has
   gone on by one row. -/
inductive StageAccounts (input : Input) (turns : List Turn) (f : Frontier) (seen : List Nat) :
    Stage → Prop
  | scanning {pending : List UInt64}
    (split : seen ++ pending.map UInt64.toNat = input.numbers.toList)
    (notBefore : ∀ i ∈ pending, f.closed * input.cols.toNat ≤ i.toNat)
    (resumes : (pending.map UInt64.toNat).foldl (Frontier.place input.cols.toNat) f =
      Frontier.run input.cols.toNat input.numbers.toList)
    (leaves : turns.count .leave = 0) (fills : turns.count .fill = 0) :
    StageAccounts input turns f seen (.scanning pending)
  | closing {next : UInt64} (all : seen = input.numbers.toList)
    (ended : f = Frontier.run input.cols.toNat input.numbers.toList)
    (leaves : turns.count .leave = 1) (next_eq : next.toNat = f.closed + turns.count .fill)
    (next_le : next.toNat ≤ input.rows.toNat) : StageAccounts input turns f seen (.closing next)

/-- The accounting of a run, over the offsets seen so far:
1. without the pointers of the last loop, the state is one of the encoder's pass;
2. the last loop has written the count of all the offsets, once for each of its turns;
3. the number of offsets placed is counted;
4. every row that is closed was closed by a turn of the inner loop;
5. every offset was placed by a turn of its own. -/
structure Accounts (input : Input) (turns : List Turn) (s : WordPass) (seen : List Nat)
    (pointers : Array UInt32) : Prop where
  tracks : (s.frontier pointers).Tracks input.rows.toNat input.cols.toNat seen
  rowPtr_eq : s.rowPtr = pointers ++ Array.replicate (turns.count .fill) input.count.toUInt32
  placed_eq : s.placed.toNat = seen.length
  closes_eq : turns.count .closeRow = s.closed.toNat
  places_eq : turns.count .place = seen.length
  stage : StageAccounts input turns (s.frontier pointers) seen s.stage

namespace StageAccounts

variable {f : Frontier} {seen : List Nat} {stage : Stage} {index : UInt64}
  {pending rest : List UInt64}

theorem length_le (h : StageAccounts input turns f seen stage) :
    seen.length ≤ input.positions.size := by
  rw [← input.length_numbers]
  cases h with
  | scanning split _ _ _ _ =>
    rw [← split, List.length_append]
    exact Nat.le_add_right _ _
  | closing all _ _ _ _ => exact Nat.le_of_eq (congrArg List.length all)

/-- The last loop has not begun. -/
theorem fills_eq (h : StageAccounts input turns f seen (.scanning pending)) :
    turns.count .fill = 0 := by
  cases h with
  | scanning _ _ _ _ fills => exact fills

/-- The encoder's pass, taken up in this state, ends where it ends from the start. -/
theorem resumes (h : StageAccounts input turns f seen (.scanning pending)) :
    (pending.map UInt64.toNat).foldl (Frontier.place input.cols.toNat) f =
      Frontier.run input.cols.toNat input.numbers.toList := by
  cases h with
  | scanning _ _ resumes _ _ => exact resumes

/-- The offsets that are left lie inside the shape. -/
theorem inside (h : StageAccounts input turns f seen (.scanning pending))
    (hin : input.Admissible) : ∀ i ∈ pending, i.toNat < input.rows.toNat * input.cols.toNat := by
  cases h with
  | scanning split _ _ _ _ =>
    intro i hi
    refine hin.inside i.toNat ?_
    rw [← split]
    exact List.mem_append_right seen (List.mem_map_of_mem hi)

/-- The offsets that are left ascend. -/
theorem ascending (h : StageAccounts input turns f seen (.scanning pending))
    (hin : input.Admissible) : pending.Pairwise fun i j => i.toNat < j.toNat := by
  cases h with
  | scanning split _ _ _ _ =>
    have hasc := hin.ascending
    rw [← split] at hasc
    exact List.pairwise_map.mp (List.pairwise_append.mp hasc).2.1

/-- Every offset that is left lies at or beyond the boundary, where the next row begins. -/
theorem closeRow (h : StageAccounts input turns f seen (.scanning (index :: rest)))
    (hin : input.Admissible) (hboundary : f.boundary = (f.closed + 1) * input.cols.toNat)
    (hle : f.boundary ≤ index.toNat) :
    StageAccounts input (turns ++ [.closeRow]) (f.closeRow input.cols.toNat) seen
      (.scanning (index :: rest)) := by
  have hasc := List.pairwise_cons.mp (h.ascending hin)
  cases h with
  | scanning split _ resumes leaves fills =>
    refine .scanning split (fun i hi => ?_) ?_ (by simp [leaves]) (by simp [fills])
    · show (f.closed + 1) * input.cols.toNat ≤ i.toNat
      rw [← hboundary]
      rcases List.mem_cons.mp hi with rfl | hi
      · exact hle
      · exact Nat.le_trans hle (Nat.le_of_lt (hasc.1 i hi))
    · rw [← resumes, List.map_cons, List.foldl_cons, List.foldl_cons,
        Frontier.place_closeRow hin.cols_pos hle]

theorem place (h : StageAccounts input turns f seen (.scanning (index :: rest)))
    (hlt : index.toNat < f.boundary) :
    StageAccounts input (turns ++ [.place])
      { f with colIdx := f.colIdx.push (index.toNat - (f.boundary - input.cols.toNat)).toUInt32 }
      (seen ++ [index.toNat]) (.scanning rest) := by
  cases h with
  | scanning split notBefore resumes leaves fills =>
    refine .scanning (by simpa using split)
      (fun i hi => notBefore i (List.mem_cons_of_mem _ hi)) ?_ (by simp [leaves]) (by simp [fills])
    rw [← resumes, List.map_cons, List.foldl_cons, Frontier.place_of_lt hlt]

end StageAccounts

variable {seen : List Nat} {pointers : Array UInt32}

theorem accounts_start (h : input.Admissible) : Accounts input [] (start input) [] #[0] where
  tracks := Frontier.tracks_start h.rows_pos
  rowPtr_eq := by simp [start]
  placed_eq := rfl
  closes_eq := rfl
  places_eq := rfl
  stage := .scanning (by simp [Input.numbers]) (by simp [frontier, start])
    (by simp [Frontier.run, Frontier.start, frontier, start, Input.numbers]) rfl rfl

namespace Accounts

theorem boundary_eq (h : Accounts input turns s seen pointers) :
    s.boundary.toNat = (s.closed.toNat + 1) * input.cols.toNat := h.tracks.boundary_eq

theorem closed_lt (h : Accounts input turns s seen pointers) :
    s.closed.toNat < input.rows.toNat := h.tracks.closed_lt

/-- The open row ends inside the shape. -/
theorem boundary_le (h : Accounts input turns s seen pointers) :
    s.boundary.toNat ≤ input.rows.toNat * input.cols.toNat := by
  rw [h.boundary_eq]
  exact Nat.mul_le_mul_right _ h.closed_lt

theorem rowPtr_size (h : Accounts input turns s seen pointers) :
    s.rowPtr.size = s.closed.toNat + 1 + turns.count .fill := by
  have hpointers : pointers.size = s.closed.toNat + 1 := by
    simpa [frontier] using congrArg List.length h.tracks.rowPtr_eq
  rw [h.rowPtr_eq, Array.size_append, Array.size_replicate, hpointers]

theorem stage_of (h : Accounts input turns s seen pointers) {stage : Stage}
    (hstage : s.stage = stage) : StageAccounts input turns (s.frontier pointers) seen stage :=
  hstage ▸ h.stage

/-- The count of the offsets placed fits an index. -/
theorem placed_lt (h : Accounts input turns s seen pointers) (hin : input.Admissible) :
    s.placed.toNat < indexLimit := by
  rw [h.placed_eq]
  exact Nat.lt_of_le_of_lt h.stage.length_le hin.size_lt

/-! ### Closing a row -/

section

variable {index : UInt64} {rest : List UInt64}

/-- An offset at or beyond the boundary lies in a row after the open one. -/
theorem next_lt (h : Accounts input turns s seen pointers) (hin : input.Admissible)
    (hstage : s.stage = .scanning (index :: rest)) (hle : s.boundary ≤ index) :
    s.closed.toNat + 1 < input.rows.toNat := by
  have hinside := (h.stage_of hstage).inside hin index List.mem_cons_self
  have hbeyond : (s.closed.toNat + 1) * input.cols.toNat ≤ index.toNat := by
    rw [← h.boundary_eq]
    exact UInt64.le_iff_toNat_le.mp hle
  exact Nat.lt_of_mul_lt_mul_right (Nat.lt_of_le_of_lt hbeyond hinside)

/-- The row that is opened ends inside the shape, so the boundary does not wrap. -/
theorem exact_closeRow (h : Accounts input turns s seen pointers) (hin : input.Admissible)
    (hstage : s.stage = .scanning (index :: rest)) (hle : s.boundary ≤ index) :
    Exact input s .closeRow := by
  have hnext := h.next_lt hin hstage hle
  have hinside : s.boundary.toNat + input.cols.toNat ≤ input.rows.toNat * input.cols.toNat := by
    rw [h.boundary_eq, ← Nat.succ_mul]
    exact Nat.mul_le_mul_right _ hnext
  exact .closeRow hinside (toNat_add_of_lt (Nat.lt_of_le_of_lt hinside hin.cells_lt))
    (toNat_succ_of_lt (Nat.lt_trans hnext input.rows.toNat_lt))
    (toNat_toUInt32_of_lt (h.placed_lt hin))

theorem closeRow (h : Accounts input turns s seen pointers) (hin : input.Admissible)
    (hstage : s.stage = .scanning (index :: rest)) (hle : s.boundary ≤ index) :
    Accounts input (turns ++ [.closeRow]) (s.closeRow input.cols) seen
      (pointers.push s.placed.toUInt32) := by
  cases h.exact_closeRow hin hstage hle with
  | closeRow _ hboundary hclosed _ =>
  have hcount : s.placed.toUInt32 = s.colIdx.size.toUInt32 :=
    congrArg Nat.toUInt32 (h.placed_eq.trans h.tracks.colIdx_size.symm)
  have hview : (s.closeRow input.cols).frontier (pointers.push s.placed.toUInt32) =
      (s.frontier pointers).closeRow input.cols.toNat := by
    simp only [frontier, WordPass.closeRow, Frontier.closeRow, hboundary, hclosed, hcount]
  have hfills : turns.count .fill = 0 := (h.stage_of hstage).fills_eq
  refine { tracks := ?_, rowPtr_eq := ?_, placed_eq := h.placed_eq, closes_eq := ?_,
           places_eq := ?_, stage := ?_ }
  · rw [hview]
    exact h.tracks.closeRow (h.next_lt hin hstage hle)
  · show s.rowPtr.push s.placed.toUInt32 = _
    rw [h.rowPtr_eq, hfills]
    simp [hfills]
  · show _ = (s.closed + 1).toNat
    simp [h.closes_eq, hclosed]
  · simp [h.places_eq]
  · show StageAccounts _ _ _ seen s.stage
    rw [hview, hstage]
    exact (h.stage_of hstage).closeRow hin h.boundary_eq (UInt64.le_iff_toNat_le.mp hle)

/-! ### Placing an offset -/

/-- The offset that comes next is not before the open row. -/
theorem open_le (h : Accounts input turns s seen pointers)
    (hstage : s.stage = .scanning (index :: rest)) :
    s.closed.toNat * input.cols.toNat ≤ index.toNat := by
  cases h.stage_of hstage with
  | scanning _ notBefore _ _ _ => exact notBefore index List.mem_cons_self

/-- An offset before the boundary lies in the open row. -/
theorem exact_place (h : Accounts input turns s seen pointers) (hin : input.Admissible)
    (hstage : s.stage = .scanning (index :: rest)) (hlt : index < s.boundary) :
    Exact input s .place := by
  have hboundary := h.boundary_eq
  rw [Nat.succ_mul] at hboundary
  have hcols : input.cols.toNat ≤ s.boundary.toNat := by omega
  have hopen : (s.boundary - input.cols).toNat = s.boundary.toNat - input.cols.toNat :=
    UInt64.toNat_sub_of_le _ _ (UInt64.le_iff_toNat_le.mpr hcols)
  have hle : s.boundary - input.cols ≤ index := by
    have hfirst := h.open_le hstage
    rw [UInt64.le_iff_toNat_le, hopen]
    omega
  have hcolumn : (index - (s.boundary - input.cols)).toNat =
      index.toNat - (s.boundary.toNat - input.cols.toNat) := by
    rw [UInt64.toNat_sub_of_le _ _ hle, hopen]
  have hcolumn_lt : (index - (s.boundary - input.cols)).toNat < input.cols.toNat := by
    have := UInt64.lt_iff_toNat_lt.mp hlt
    have := hin.cols_pos
    omega
  exact .place hstage hopen hcols hle hlt hcolumn (UInt64.lt_iff_toNat_lt.mpr hcolumn_lt)
    (toNat_toUInt32_of_lt (Nat.lt_trans hcolumn_lt hin.cols_lt))
    (toNat_succ_of_lt (Nat.lt_of_le_of_lt (h.placed_lt hin) (by decide)))

theorem place (h : Accounts input turns s seen pointers) (hin : input.Admissible)
    (hstage : s.stage = .scanning (index :: rest)) (hlt : index < s.boundary) :
    Accounts input (turns ++ [.place]) (s.place input.cols index rest) (seen ++ [index.toNat])
      pointers := by
  cases h.exact_place hin hstage hlt with
  | place hstage' _ _ _ _ hcolumn _ _ hplaced =>
  cases hstage.symm.trans hstage'
  have hcol : (index - (s.boundary - input.cols)).toUInt32 =
      (index.toNat - (s.boundary.toNat - input.cols.toNat)).toUInt32 :=
    congrArg Nat.toUInt32 hcolumn
  have hview : (s.place input.cols index rest).frontier pointers =
      { s.frontier pointers with
        colIdx :=
          s.colIdx.push (index.toNat - (s.boundary.toNat - input.cols.toNat)).toUInt32 } := by
    simp only [frontier, WordPass.place, hcol]
  have hlast : index.toNat < (s.frontier pointers).boundary := UInt64.lt_iff_toNat_lt.mp hlt
  refine { tracks := ?_, rowPtr_eq := ?_, placed_eq := ?_, closes_eq := ?_,
           places_eq := ?_, stage := ?_ }
  · rw [hview]
    exact h.tracks.put (h.open_le hstage) hlast
  · show s.rowPtr = _
    simp [h.rowPtr_eq]
  · show (s.placed + 1).toNat = _
    simp [hplaced, h.placed_eq]
  · show _ = s.closed.toNat
    simp [h.closes_eq]
  · simp [h.places_eq]
  · rw [hview]
    exact (h.stage_of hstage).place hlast

end

/-! ### Leaving the first loop, and the last loop -/

theorem leave (h : Accounts input turns s seen pointers) (hstage : s.stage = .scanning []) :
    Accounts input (turns ++ [.leave]) s.leave seen pointers := by
  cases h.stage_of hstage with
  | scanning split _ resumes leaves fills =>
  refine { tracks := h.tracks, rowPtr_eq := ?_, placed_eq := h.placed_eq, closes_eq := ?_,
           places_eq := ?_, stage := ?_ }
  · show s.rowPtr = _
    simp [h.rowPtr_eq]
  · show _ = s.closed.toNat
    simp [h.closes_eq]
  · simp [h.places_eq]
  · exact .closing (by simpa using split) resumes (by simp [leaves])
      (by simp [fills, WordPass.leave, frontier]) (Nat.le_of_lt h.closed_lt)

section

variable {next : UInt64}

theorem exact_fill (hin : input.Admissible) (hstage : s.stage = .closing next)
    (hlt : next < input.rows) : Exact input s .fill := by
  have hnext : next.toNat + 1 < wordLimit :=
    Nat.lt_of_le_of_lt (UInt64.lt_iff_toNat_lt.mp hlt) input.rows.toNat_lt
  have hcount : input.count.toNat < indexLimit := by
    rw [hin.toNat_count]
    exact hin.size_lt
  exact .fill hstage (toNat_succ_of_lt hnext) ((toNat_toUInt32_of_lt hcount).trans hin.toNat_count)

theorem fill (h : Accounts input turns s seen pointers) (hin : input.Admissible)
    (hstage : s.stage = .closing next) (hlt : next < input.rows) :
    Accounts input (turns ++ [.fill]) (s.fill input.count next) seen pointers := by
  cases h.stage_of hstage with
  | closing all ended leaves next_eq _ =>
  cases exact_fill hin hstage hlt with
  | fill hstage' hnext _ =>
  cases hstage.symm.trans hstage'
  refine { tracks := h.tracks, rowPtr_eq := ?_, placed_eq := h.placed_eq, closes_eq := ?_,
           places_eq := ?_, stage := ?_ }
  · show s.rowPtr.push input.count.toUInt32 = _
    simp [h.rowPtr_eq, Array.replicate_succ]
  · show _ = s.closed.toNat
    simp [h.closes_eq]
  · simp [h.places_eq]
  · refine .closing all ended (by simp [leaves]) ?_ ?_
    · show (next + 1).toNat = (s.frontier pointers).closed + _
      rw [hnext, next_eq]
      simp [Nat.add_assoc]
    · rw [hnext]
      exact UInt64.lt_iff_toNat_lt.mp hlt

end

/-! ### Any turn -/

/-- **The next turn is exact, and it keeps the accounting.** -/
theorem turn (h : Accounts input turns s seen pointers) (hin : input.Admissible)
    (hturn : s.turn? input = some (a, t)) :
    Exact input s a ∧ ∃ seen pointers, Accounts input (turns ++ [a]) t seen pointers := by
  cases turns_of_turn? hturn with
  | closeRow hstage hle =>
    exact ⟨h.exact_closeRow hin hstage hle, _, _, h.closeRow hin hstage hle⟩
  | place hstage hlt => exact ⟨h.exact_place hin hstage hlt, _, _, h.place hin hstage hlt⟩
  | leave hstage => exact ⟨.leave, _, _, h.leave hstage⟩
  | fill hstage hlt => exact ⟨exact_fill hin hstage hlt, _, _, h.fill hin hstage hlt⟩

end Accounts

theorem Reaches.accounts (h : Reaches input turns s) (hin : input.Admissible) :
    ∃ seen pointers, Accounts input turns s seen pointers := by
  induction h with
  | start => exact ⟨_, _, accounts_start hin⟩
  | turn _ hturn ih =>
    obtain ⟨seen, pointers, hacc⟩ := ih
    exact (hacc.turn hin hturn).2

/-! ## The end of a run -/

namespace Accounts

/-- There is a turn for each offset, one for each row, and one between the loops. -/
theorem length_le (h : Accounts input turns s seen pointers) :
    turns.length ≤ input.rows.toNat + input.positions.size + 1 := by
  have hclosed := h.closed_lt
  have hseen := h.stage.length_le
  rw [length_turns, h.closes_eq, h.places_eq]
  cases hstage : s.stage with
  | scanning pending =>
    cases h.stage_of hstage with
    | scanning _ _ _ leaves fills => omega
  | closing next =>
    cases h.stage_of hstage with
    | closing _ _ leaves next_eq next_le =>
      have hnext : next.toNat = s.closed.toNat + turns.count .fill := next_eq
      omega

/-- At the end all offsets are placed, and every row that was open is closed. -/
theorem stage_end (h : Accounts input turns s seen pointers) (hend : s.turn? input = none) :
    seen = input.numbers.toList ∧ turns.count .fill = input.rows.toNat - s.closed.toNat ∧
      s.frontier pointers = Frontier.run input.cols.toNat input.numbers.toList := by
  obtain ⟨next, hstage, hle⟩ := turn?_eq_none_iff.mp hend
  cases h.stage_of hstage with
  | closing all ended _ next_eq next_le =>
    have hnext : next.toNat = s.closed.toNat + turns.count .fill := next_eq
    have hrows := UInt64.le_iff_toNat_le.mp hle
    exact ⟨all, by omega, ended⟩

/-- The pointers are those of the encoder. -/
theorem rowPtr_end (h : Accounts input turns s seen pointers) (hin : input.Admissible)
    (hend : s.turn? input = none) :
    s.rowPtr = (Frontier.run input.cols.toNat input.numbers.toList).finish input.rows.toNat := by
  obtain ⟨hall, hfills, hended⟩ := h.stage_end hend
  have hcount : input.count.toUInt32 = s.colIdx.size.toUInt32 := by
    have hsize : s.colIdx.size = input.positions.size := by
      rw [← input.length_numbers, ← hall]
      exact h.tracks.colIdx_size
    exact congrArg Nat.toUInt32 (hin.toNat_count.trans hsize.symm)
  rw [h.rowPtr_eq, hfills, hcount, ← hended]
  rfl

end Accounts

/-- A run that is not over goes on, and no run is longer than its input allows. -/
theorem Reaches.exists_end (h : Reaches input turns s) (hin : input.Admissible) :
    ∃ rest t, Reaches input (turns ++ rest) t ∧ t.turn? input = none := by
  induction hleft : input.rows.toNat + input.positions.size + 1 - turns.length using
    Nat.strong_induction_on generalizing turns s with
  | _ left ih =>
    cases hturn : s.turn? input with
    | none => exact ⟨[], s, by simpa using h, hturn⟩
    | some next =>
      obtain ⟨a, t⟩ := next
      have hnext : Reaches input (turns ++ [a]) t := h.turn hturn
      obtain ⟨seen, pointers, hacc⟩ := hnext.accounts hin
      have hlength := hacc.length_le
      rw [List.length_append, List.length_singleton] at hlength
      obtain ⟨rest, u, hrest, hend⟩ := ih _ (by simp; omega) hnext rfl
      exact ⟨a :: rest, u, by simpa using hrest, hend⟩

/-! ## The machine and the encoder -/

/-- What holds of every state of a run:
1. the boundary is the start of the row after the open one;
2. the open row is one of the matrix;
3. the boundary stays inside the shape;
4. there is a pointer for each row that was begun, and one for each turn of the last loop;
5. the last loop makes no turn before the offsets are used up;
6. until then the encoder's pass, taken up in this state, ends where it ends from the start;
7. the inner loop has made one turn for each row that it closed;
8. the outer loop has made one turn for each offset that it placed;
9. there is at most one turn for each row and each offset, and one more;
10. the next turn is exact. -/
structure Bounds (input : Input) (turns : List Turn) (s : WordPass) : Prop where
  boundary_eq : s.boundary.toNat = (s.closed.toNat + 1) * input.cols.toNat
  closed_lt : s.closed.toNat < input.rows.toNat
  boundary_le : s.boundary.toNat ≤ input.rows.toNat * input.cols.toNat
  rowPtr_size : s.rowPtr.size = s.closed.toNat + 1 + turns.count .fill
  fills_eq : ∀ pending, s.stage = .scanning pending → turns.count .fill = 0
  resumes : ∀ pending, s.stage = .scanning pending →
    (pending.map UInt64.toNat).foldl (Frontier.place input.cols.toNat) (s.frontier s.rowPtr) =
      Frontier.run input.cols.toNat input.numbers.toList
  closes_eq : turns.count .closeRow = s.closed.toNat
  places_eq : turns.count .place = s.placed.toNat
  length_le : turns.length ≤ input.rows.toNat + input.positions.size + 1
  exact_turn : ∀ a t, s.turn? input = some (a, t) → Exact input s a

theorem Accounts.bounds (h : Accounts input turns s seen pointers) (hin : input.Admissible) :
    Bounds input turns s where
  boundary_eq := h.boundary_eq
  closed_lt := h.closed_lt
  boundary_le := h.boundary_le
  rowPtr_size := h.rowPtr_size
  fills_eq := fun _ hstage => (h.stage_of hstage).fills_eq
  resumes := by
    intro pending hstage
    have hstand := h.stage_of hstage
    have hpointers : s.rowPtr = pointers := by simp [h.rowPtr_eq, hstand.fills_eq]
    rw [hpointers]
    exact hstand.resumes
  closes_eq := h.closes_eq
  places_eq := h.places_eq.trans h.placed_eq.symm
  length_le := h.length_le
  exact_turn := fun _ _ hturn => (h.turn hin hturn).1

/-- What holds at the end of a run:
1. the inner loop has made at most one turn for each row but the last;
2. every offset was placed;
3. the last loop has made one turn for each row that was still open;
4. the encoder computes the same arrays, whatever its values are. -/
structure Complete (input : Input) (turns : List Turn) (s : WordPass) : Prop where
  closes_le : turns.count .closeRow ≤ input.rows.toNat - 1
  places_eq : turns.count .place = input.positions.size
  fills_eq : turns.count .fill = input.rows.toNat - s.closed.toNat
  encode_eq : ∀ {m : Type → Type} [Monad m] {α : Type} (lookup : Nat → m α),
    Csr.encode input.rows.toNat input.cols.toNat input.numbers lookup = do
      let values ← input.numbers.mapM lookup
      return .ok (.ok ⟨input.rows.toNat, input.cols.toNat, s.rowPtr, s.colIdx, values⟩)

theorem Accounts.complete (h : Accounts input turns s seen pointers)
    (hcheck : InputDefect.first? input.rows.toNat input.cols.toNat input.numbers = none)
    (hrows : input.rows.toNat + 1 < wordLimit) (hend : s.turn? input = none) :
    Complete input turns s where
  closes_le := by
    rw [h.closes_eq]
    exact Nat.le_sub_one_of_lt h.closed_lt
  places_eq := by rw [h.places_eq, (h.stage_end hend).1, input.length_numbers]
  fills_eq := (h.stage_end hend).2.1
  encode_eq := by
    intro m _ α lookup
    have hin : input.Admissible := InputDefect.first?_eq_none_iff.mp hcheck
    have hcols : s.colIdx = (Frontier.run input.cols.toNat input.numbers.toList).colIdx :=
      congrArg Frontier.colIdx (h.stage_end hend).2.2
    rw [Csr.encode_of_countable hcheck hrows, h.rowPtr_end hin hend, hcols]
    rfl

/-- **The encoder's arithmetic is exact up to the limit of words, and its loops end.** On an input
that passes the check, with fewer rows than the greatest word, no step of any run on words wraps or
cuts a number off: the boundary stays inside the shape, the number of whose cells is a word, and a
column lies below the number of columns. Until the offsets are used up, the encoder can take over at
any state and ends where it would have ended. Every run can be completed, and when it is, the inner
loop has closed fewer rows than there are, the last loop has closed the others, and the arrays are
those of the encoder. -/
theorem exact_and_ends {input : Input}
    (h : InputDefect.first? input.rows.toNat input.cols.toNat input.numbers = none)
    (hrows : input.rows.toNat < wordLimit - 1) :
    (input.rows + 1).toNat = input.rows.toNat + 1 ∧
      input.rows.toNat * input.cols.toNat < wordLimit ∧
      ∀ turns s, Reaches input turns s →
        Bounds input turns s ∧
        (∃ rest t, Reaches input (turns ++ rest) t ∧ t.turn? input = none) ∧
        (s.turn? input = none → Complete input turns s) := by
  have hin : input.Admissible := InputDefect.first?_eq_none_iff.mp h
  have hcountable : input.rows.toNat + 1 < wordLimit := Nat.add_lt_of_lt_sub hrows
  refine ⟨toNat_succ_of_lt hcountable, hin.cells_lt, fun turns s hreach => ?_⟩
  obtain ⟨seen, pointers, hacc⟩ := hreach.accounts hin
  exact ⟨hacc.bounds hin, hreach.exists_end hin, hacc.complete h hcountable⟩

/-- A shape with as many cells as the greatest word, and an offset in the last of them. -/
theorem exact_and_ends_greatest_word :
    InputDefect.first? 4294967297 4294967295 #[18446744073709551614] = none ∧
      4294967297 * 4294967295 = wordLimit - 1 ∧
      ∃ turns s, Reaches ⟨4294967297, 4294967295, #[18446744073709551614]⟩ turns s ∧
        s.turn? ⟨4294967297, 4294967295, #[18446744073709551614]⟩ = none ∧
        turns.count .place = 1 ∧ turns.count .closeRow + turns.count .fill = 4294967297 ∧
        s.boundary.toNat = (s.closed.toNat + 1) * 4294967295 := by
  have hcheck : InputDefect.first? (4294967297 : UInt64).toNat (4294967295 : UInt64).toNat
      (#[18446744073709551614].map UInt64.toNat) = none := by
    rw [List.map_toArray]
    decide
  obtain ⟨-, -, hall⟩ :=
    @exact_and_ends ⟨4294967297, 4294967295, #[18446744073709551614]⟩ hcheck (by decide)
  obtain ⟨-, ⟨turns, s, hreach, hend⟩, -⟩ := hall _ _ .start
  obtain ⟨hbounds, -, hcomplete⟩ := hall _ _ hreach
  refine ⟨by decide, by decide, _, s, hreach, hend, (hcomplete hend).places_eq, ?_,
    hbounds.boundary_eq⟩
  rw [hbounds.closes_eq, (hcomplete hend).fills_eq]
  exact Nat.add_sub_cancel' (Nat.le_of_lt hbounds.closed_lt)

end WordPass

end SparseDatasets
