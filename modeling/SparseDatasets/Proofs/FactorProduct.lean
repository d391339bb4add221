import Mathlib.Algebra.BigOperators.Fin
import Mathlib.Algebra.BigOperators.Intervals
import Mathlib.Data.Matrix.Mul
import SparseDatasets.Proofs.Definite

/-!
# The sums behind a sparse operand

The factor of a sparse operand is filled by writing into a matrix of zeros: the one on the diagonal
of each row, and before it a number wherever a draw says so. Nothing is written above the diagonal.
Of two columns the rows above the later diagonal therefore hold a zero in one of them, and the
source leaves these rows out of its sums. This is no approximation: read as rational numbers, the
sums that are left are those over all rows, so they are the entries of the product of the factor's
transpose with the factor.

The doubles that the source stores may differ from these entries, as additions and products of
doubles are rounded. What is exact are the entries of the factor, which are finite.

- `Dense.set_ofList`: a write into a square matrix that is given by the list of its cells.
- `SparseDefinite.fillFactor`, `SparseDefinite.fillFactor_eq`: the factor as it is filled. A word
  counts the cells of every source's factor, so no write fails.
- `dot_eq_sum`, `dot_eq_of_zero`: the sums, and the rows that add nothing to them.
- `dot_eq_mul`: the sums over all rows are the entries of a product.
- `SparseDefinite.UnitLower.skipped`: the rows that the source leaves out.
- `SparseDefinite.shortened_sums_exact`: **leaving them out changes nothing.**
-/

namespace SparseDatasets

/-! ## Row after row -/

section

variable {m : Type → Type} [Monad m] [LawfulMonad m] {α β γ : Type}

theorem mapM_congr {f g : α → m β} {l : List α} (h : ∀ x ∈ l, f x = g x) :
    l.mapM f = l.mapM g := by
  induction l with
  | nil => rfl
  | cons x l ih =>
    rw [List.mapM_cons, List.mapM_cons, h x List.mem_cons_self,
      ih fun y hy => h y (List.mem_cons_of_mem _ hy)]

/-- Lists that are computed one after the other. -/
theorem mapM_flatMap (f : β → m γ) (g : α → List β) (l : List α) :
    (l.flatMap g).mapM f = return (← l.mapM fun x => (g x).mapM f).flatten := by
  induction l with
  | nil => simp
  | cons x l ih => simp [ih]

end

/-- What a draw yields may be assumed of its results where faults may follow. -/
theorem Draw.Yields.lift_bind_congr {σ α β ε : Type} {P : α → Prop} {draw : Draw σ α}
    {f g : α → ExceptT ε (Draw σ) β} (hdraw : Draw.Yields P draw) (h : ∀ x, P x → f x = g x) :
    (liftM draw >>= f : ExceptT ε (Draw σ) β) = liftM draw >>= g := by
  refine ExceptT.ext ?_
  rw [run_liftM_bind, run_liftM_bind]
  exact hdraw.bind_congr fun x hx => congrArg ExceptT.run (h x hx)

/-! ## Square matrices as lists -/

namespace Dense

variable {α : Type}

/-- A square matrix with the cells of a list. -/
def ofList (n : Nat) (cells : List α) : Dense α := ⟨n, n, cells.toArray⟩

/-- Writing a cell changes one entry of the list. -/
theorem set_ofList {n i j : Nat} {front back : List α} {x y : α} (hword : n * n < wordLimit)
    (hsize : (front ++ y :: back).length = n * n) (hi : i < n) (hj : j < n)
    (hfront : front.length = i * n + j) :
    (ofList n (front ++ y :: back)).set i j x = .ok (ofList n (front ++ x :: back)) := by
  rw [ofList, set_eq hword hsize hi hj, ← hfront, List.setIfInBounds_toArray,
    List.set_append_right _ _ (Nat.le_refl _), Nat.sub_self, List.set_cons_zero]
  rfl

end Dense

/-! ## The factor as it is filled -/

namespace SparseDefinite

section Filling

variable {σ α : Type} [WordStream σ] [Scalar α] (source : SparseDefinite)

/-- Overwrites an entry below the diagonal with the chance of the density. -/
def fillEntry (d : Dense α) (i j : Nat) : ExceptT AccessFault (Draw σ) (Dense α) := do
  if ← (Draw.bernoulli source.density : Draw σ Bool) then
    let x : α ← (Draw.nonzero : Draw σ α)
    d.set i j x
  else return d

/-- Writes the one on the diagonal of a row, and then what is before it. -/
def fillRow (d : Dense α) (i : Nat) : ExceptT AccessFault (Draw σ) (Dense α) := do
  let d ← d.set i i 1
  (List.range i).foldlM (fun d j => source.fillEntry d i j) d

/-- The factor, written into a matrix of zeros row after row. -/
def fillFactor : ExceptT AccessFault (Draw σ) (Dense α) :=
  (List.range source.size).foldlM source.fillRow (Dense.zeros source.size source.size)

/-- An entry below the diagonal. -/
def lowerEntry : Draw σ α := do
  if ← Draw.bernoulli source.density then Draw.nonzero else return 0

/-- A zero is overwritten, or stays. -/
theorem fillEntry_eq {front back : List α} {i j : Nat} (hi : i < source.size)
    (hj : j < source.size) (hfront : front.length = i * source.size + j)
    (hsize : (front ++ 0 :: back).length = source.size * source.size) :
    (source.fillEntry (.ofList source.size (front ++ 0 :: back)) i j :
        ExceptT AccessFault (Draw σ) (Dense α)) = do
      let x ← (source.lowerEntry : Draw σ α)
      return .ofList source.size (front ++ x :: back) := by
  unfold fillEntry lowerEntry
  rw [liftM_bind, bind_assoc]
  congr 1
  funext present
  cases present with
  | false => simp
  | true =>
    rw [if_pos rfl, if_pos rfl]
    congr 1
    funext x
    rw [Dense.set_ofList source.cells_lt hsize hi hj hfront]
    rfl

theorem foldlM_fillEntry {front back : List α} {i start count : Nat} (hi : i < source.size)
    (hcount : start + count ≤ i) (hfront : front.length = i * source.size + start)
    (hsize : (front ++ (List.replicate count 0 ++ back)).length = source.size * source.size) :
    ((List.range' start count).foldlM (fun d j => source.fillEntry d i j)
        (.ofList source.size (front ++ (List.replicate count 0 ++ back))) :
        ExceptT AccessFault (Draw σ) (Dense α)) = do
      let row ← ((List.range' start count).mapM fun _ => source.lowerEntry : Draw σ (List α))
      return .ofList source.size (front ++ (row ++ back)) := by
  induction count generalizing start front with
  | zero => simp
  | succ count ih =>
    rw [List.replicate_succ, List.cons_append] at hsize ⊢
    rw [List.range'_succ, List.foldlM_cons, List.mapM_cons,
      fillEntry_eq source hi (by omega) hfront hsize]
    simp only [bind_assoc, pure_bind, liftM_bind, liftM_pure]
    congr 1
    funext x
    have hnext : (front ++ [x]).length = i * source.size + (start + 1) := by
      rw [List.length_append, hfront, List.length_singleton, Nat.add_assoc]
    have hrest : (front ++ [x] ++ (List.replicate count 0 ++ back)).length =
        source.size * source.size := by
      rw [← hsize, ← List.append_cons]
      simp
    rw [List.append_cons, ih (by omega) hnext hrest]
    simp

variable {source}

/-- A row of the factor: what is drawn, the one on the diagonal, and zeros. -/
theorem mapM_factorEntry {i : Nat} (hi : i < source.size) :
    ((List.range source.size).mapM (source.factorEntry i) : Draw σ (List α)) =
      return (← (List.range i).mapM fun _ => source.lowerEntry) ++
        1 :: List.replicate (source.size - (i + 1)) 0 := by
  obtain ⟨count, hcount⟩ : ∃ count, source.size = i + (count + 1) :=
    ⟨source.size - (i + 1), by omega⟩
  have hbefore : ((List.range i).mapM (source.factorEntry i) : Draw σ (List α)) =
      (List.range i).mapM fun _ => source.lowerEntry := by
    refine mapM_congr fun j hj => ?_
    have hlt : j < i := List.mem_range.mp hj
    rw [factorEntry, if_neg (by omega), if_neg (by omega)]
    rfl
  have hdiagonal : (source.factorEntry i i : Draw σ α) = pure 1 := by
    rw [factorEntry, if_neg (Nat.lt_irrefl i), if_pos rfl]
  have hbehind : ((List.range' (i + 1) count).mapM (source.factorEntry i) : Draw σ (List α)) =
      return List.replicate count 0 := by
    have hzero : ∀ j ∈ List.range' (i + 1) count, (source.factorEntry i j : Draw σ α) = pure 0 := by
      intro j hj
      have hlt : i < j := (List.mem_range'_1.mp hj).1
      rw [factorEntry, if_pos hlt]
    rw [mapM_congr hzero, List.mapM_pure, List.map_const', List.length_range']
  have hrange : List.range source.size = List.range i ++ i :: List.range' (i + 1) count := by
    rw [hcount, List.range_eq_range', List.range_eq_range', ← List.range'_append_1,
      Nat.zero_add, List.range'_succ]
  have hrest : source.size - (i + 1) = count := by omega
  rw [hrest, hrange, List.mapM_append, List.mapM_cons, hbefore, hdiagonal, hbehind]
  simp

/-- A row of zeros becomes a row of the factor. -/
theorem fillRow_eq {front back : List α} {i : Nat} (hi : i < source.size)
    (hfront : front.length = i * source.size)
    (hsize : (front ++ (List.replicate source.size 0 ++ back)).length =
      source.size * source.size) :
    (source.fillRow (.ofList source.size (front ++ (List.replicate source.size 0 ++ back))) i :
        ExceptT AccessFault (Draw σ) (Dense α)) = do
      let row ← ((List.range source.size).mapM (source.factorEntry i) : Draw σ (List α))
      return .ofList source.size (front ++ (row ++ back)) := by
  -- the row is split at its diagonal, which is written first
  have hsplit : front ++ (List.replicate source.size (0 : α) ++ back) =
      (front ++ List.replicate i 0) ++ 0 :: (List.replicate (source.size - (i + 1)) 0 ++ back) := by
    have hcount : source.size = i + (1 + (source.size - (i + 1))) := by omega
    conv_lhs => rw [hcount]
    simp [← List.replicate_append_replicate]
  have hplace : (front ++ List.replicate i (0 : α)).length = i * source.size + i := by
    rw [List.length_append, hfront, List.length_replicate]
  rw [hsplit] at hsize ⊢
  have hsize' : (front ++ (List.replicate i (0 : α) ++
      1 :: (List.replicate (source.size - (i + 1)) 0 ++ back))).length =
        source.size * source.size := by
    rw [← hsize]
    simp
  unfold fillRow
  rw [Dense.set_ofList source.cells_lt hsize hi hi hplace, mapM_factorEntry hi, List.append_assoc,
    List.range_eq_range']
  refine (foldlM_fillEntry source hi (Nat.zero_add i).le hfront hsize').trans ?_
  simp

theorem foldlM_fillRow {front : List α} {start count : Nat} (hcount : start + count = source.size)
    (hfront : front.length = start * source.size) :
    ((List.range' start count).foldlM source.fillRow
        (.ofList source.size (front ++ List.replicate (count * source.size) 0)) :
        ExceptT AccessFault (Draw σ) (Dense α)) = do
      let rows ← ((List.range' start count).mapM fun i =>
        (List.range source.size).mapM (source.factorEntry i) : Draw σ (List (List α)))
      return .ofList source.size (front ++ rows.flatten) := by
  induction count generalizing start front with
  | zero => simp
  | succ count ih =>
    have hsize : (front ++ (List.replicate source.size (0 : α) ++
        List.replicate (count * source.size) 0)).length = source.size * source.size := by
      rw [List.length_append, hfront, List.replicate_append_replicate, List.length_replicate,
        Nat.add_comm source.size, ← Nat.succ_mul, ← Nat.add_mul, hcount]
    rw [List.range'_succ, List.foldlM_cons, List.mapM_cons, Nat.succ_mul, Nat.add_comm,
      ← List.replicate_append_replicate, fillRow_eq (by omega) hfront hsize]
    simp only [bind_assoc, pure_bind, liftM_bind, liftM_pure]
    -- the next row starts where this one ends
    refine (Draw.Yields.length_mapM _ _).lift_bind_congr fun row hrow => ?_
    have hnext : (front ++ row).length = (start + 1) * source.size := by
      rw [List.length_append, hfront, hrow, List.length_range, Nat.succ_mul]
    rw [← List.append_assoc, ih (by omega) hnext]
    simp

variable (source)

/-- The matrix of what is drawn for each coordinate is what writing into zeros makes, and no write
fails. -/
theorem fillFactor_eq : (source.fillFactor : ExceptT AccessFault (Draw σ) (Dense α)) =
    liftM (source.factor : Draw σ (Dense α)) := by
  have hfront : ([] : List α).length = 0 * source.size := (Nat.zero_mul _).symm
  have hcells := foldlM_fillRow (σ := σ) (Nat.zero_add source.size) hfront
  have hcount : cellCount source.size source.size = source.size * source.size :=
    Nat.mod_eq_of_lt source.cells_lt
  rw [List.nil_append, ← List.range_eq_range'] at hcells
  unfold fillFactor
  rw [Dense.zeros, hcount, ← List.toArray_replicate]
  refine hcells.trans ?_
  unfold factor Dense.ofFnM
  rw [coordinates_eq_flatMap, mapM_flatMap]
  simp only [bind_assoc, pure_bind, List.mapM_map, List.nil_append]
  rfl

end Filling

end SparseDefinite

/-! ## Sums over rows -/

section Sums

variable {R : Type} {x : Nat → Nat → R}

theorem dot_eq_sum [Semiring R] (x : Nat → Nat → R) (start stop i j : Nat) :
    dot x start stop i j = ∑ k ∈ Finset.Ico start stop, x k i * x k j := by
  rw [Finset.sum_Ico_eq_sum_range]
  unfold dot
  generalize stop - start = count
  induction count with
  | zero => rfl
  | succ count ih =>
    rw [List.range'_concat, List.foldl_append, ih, Finset.sum_range_succ, Nat.one_mul]
    rfl

/-- Rows in which one of the two factors is zero add nothing. -/
theorem dot_eq_of_zero [Semiring R] {start stop i j : Nat}
    (h : ∀ k < start, x k i = 0 ∨ x k j = 0) : dot x start stop i j = dot x 0 stop i j := by
  rw [dot_eq_sum, dot_eq_sum]
  refine Finset.sum_subset (Finset.Ico_subset_Ico_left (Nat.zero_le start)) fun k hk hskipped => ?_
  have hlt : k < start := by
    rw [Finset.mem_Ico] at hk hskipped
    omega
  rcases h k hlt with hzero | hzero
  · rw [hzero, zero_mul]
  · rw [hzero, mul_zero]

/-- The sums over all rows are the entries of the product of the transpose with the matrix. -/
theorem dot_eq_mul [CommSemiring R] {n : Nat} {m : Matrix (Fin n) (Fin n) R}
    (h : ∀ i j : Fin n, m i j = x i j) (i j : Fin n) :
    dot x 0 n i j = (m.transpose * m) i j := by
  rw [dot_eq_sum, Matrix.mul_apply, ← Finset.range_eq_Ico,
    ← Fin.sum_univ_eq_sum_range fun k => x k i * x k j]
  simp only [Matrix.transpose_apply, h]

end Sums

/-! ## The rows that are left out -/

namespace Dense

/-- The number that an entry of a matrix stands for. -/
def number (d : Dense Binary64) (i j : Nat) : ℚ := (d.entry i j).rational

/-- The numbers that the entries of a square matrix stand for. -/
def numbers (n : Nat) (d : Dense Binary64) : Matrix (Fin n) (Fin n) ℚ := .of fun i j => d.number i j

/-- The entries of a matrix that has all its cells stand in these. -/
theorem getElem?_cells {α : Type} [Element α] {d : Dense α} (h : d.cells.size = d.rows * d.cols)
    {i j : Nat} (hi : i < d.rows) (hj : j < d.cols) :
    d.cells[i * d.cols + j]? = some (d.entry i j) := by
  have hlt : i * d.cols + j < d.cells.size := h ▸ offset_lt hi hj
  rw [entry, Array.getD_eq_getD_getElem?, Array.getElem?_eq_getElem hlt, Option.getD_some]

end Dense

namespace SparseDefinite

variable {n : Nat} {factor : Dense Binary64}

/-- Above the later of two diagonals, one of the two columns holds a zero. -/
theorem UnitLower.skipped (h : UnitLower n factor) {i j k : Nat} (hi : i < n) (hj : j < n)
    (hk : k < max j i) : factor.entry k i = 0 ∨ factor.entry k j = 0 := by
  rcases lt_max_iff.mp hk with hlt | hlt
  · exact .inr ((h k (by omega) j hj).above hlt)
  · exact .inl ((h k (by omega) i hi).above hlt)

theorem UnitLower.rational? (h : UnitLower n factor) {i j : Nat} (hi : i < n) (hj : j < n) :
    (factor.entry i j).rational? = some (factor.number i j) := by
  obtain ⟨q, hq, -⟩ := (h i hi j hj).finite
  rw [hq, Dense.number, (Binary64.rational?_eq_some_iff.mp hq).2]

theorem UnitLower.dot_eq (h : UnitLower n factor) {i j : Nat} (hi : i < n) (hj : j < n) :
    dot factor.number (max j i) n i j = dot factor.number 0 n i j := by
  refine dot_eq_of_zero fun k hk => ?_
  rcases h.skipped hi hj hk with hzero | hzero
  · exact .inl ((congrArg Binary64.rational hzero).trans Binary64.rational_zero)
  · exact .inr ((congrArg Binary64.rational hzero).trans Binary64.rational_zero)

/-- **Leaving out the rows above both diagonals changes nothing.** From any state of any stream no
write of the source fails. The factor has all its cells, with ones on the diagonal, zeros above it,
and below it zeros or numbers that are not zero. Each row that the source leaves out of a sum has a
zero in one of the two columns. So with the finite entries of the factor read as rational numbers,
the sum that is left is the one over all rows, which is the entry of the product of the factor's
transpose with the factor. -/
theorem shortened_sums_exact {σ : Type} [WordStream σ] (source : SparseDefinite) (s : σ) :
    ∃ (factor : Dense Binary64) (g : Generated Binary64) (s' : σ),
      source.factor.run s = (factor, s') ∧ source.fillFactor.run.run s = (.ok factor, s') ∧
      source.generate.run.run s = (.ok g, s') ∧
      (factor.rows = source.size ∧ factor.cols = source.size ∧
        factor.cells.size = source.size * source.size) ∧
      (∀ i < source.size, ∀ j < source.size,
        factor.cells[i * source.size + j]? = some (factor.entry i j) ∧
        (i = j → factor.entry i j = 1) ∧ (i < j → factor.entry i j = 0) ∧
        (j < i → factor.entry i j = 0 ∨ Element.isZero (factor.entry i j) = false) ∧
        (factor.entry i j).rational? = some (factor.number i j)) ∧
      (g.dense.Square source.size fun i j => dot factor.entry (max j i) source.size i j) ∧
      ∀ i j : Fin source.size,
        (∀ k < max j.val i.val, factor.entry k i = 0 ∨ factor.entry k j = 0) ∧
        dot factor.number (max j i) source.size i j = dot factor.number 0 source.size i j ∧
        dot factor.number 0 source.size i j =
          ((factor.numbers source.size).transpose * factor.numbers source.size) i j := by
  obtain ⟨factor, s', hrun⟩ :
      ∃ factor s', (source.factor : Draw σ (Dense Binary64)).run s = (factor, s') := ⟨_, _, rfl⟩
  have hmade : factor = ((source.factor : Draw σ (Dense Binary64)).run s).1 := by rw [hrun]
  have hfactor : UnitLower source.size factor := hmade ▸ source.factor_yields s
  obtain ⟨hrows, hcols, hsize⟩ : factor.rows = source.size ∧ factor.cols = source.size ∧
      factor.cells.size = source.size * source.size := by
    rw [hmade]
    exact ⟨rfl, rfl, Dense.ofFnM_size s⟩
  have hcell {i j : Nat} (hi : i < source.size) (hj : j < source.size) :
      factor.cells[i * source.size + j]? = some (factor.entry i j) := by
    rw [← hcols]
    exact Dense.getElem?_cells (by rw [hsize, hrows, hcols]) (hrows ▸ hi) (hcols ▸ hj)
  have hfilled : source.fillFactor.run.run s = (.ok factor, s') := by
    rw [fillFactor_eq]
    exact congrArg (fun r => (Except.ok r.1, r.2)) hrun
  obtain ⟨dense, hdense, hsquare⟩ := product_square source.cells_lt factor
  have hgenerate : source.generate.run.run s = (.ok ⟨dense, dense.support⟩, s') := by
    have hproduct : product ((source.factor : Draw σ (Dense Binary64)).run s).1 source.size =
        .ok dense := hmade ▸ hdense
    exact (Generated.run_eq hproduct).trans (by rw [hrun])
  refine ⟨factor, ⟨dense, dense.support⟩, s', hrun, hfilled, hgenerate, ⟨hrows, hcols, hsize⟩,
    fun i hi j hj => ?_, hsquare, fun i j => ?_⟩
  · obtain ⟨habove, hdiagonal, hbelow, -⟩ := hfactor i hi j hj
    exact ⟨hcell hi hj, hdiagonal, habove, hbelow, hfactor.rational? hi hj⟩
  · exact ⟨fun k hk => hfactor.skipped i.isLt j.isLt hk, hfactor.dot_eq i.isLt j.isLt,
      dot_eq_mul (fun _ _ => rfl) i j⟩

end SparseDefinite

end SparseDatasets
