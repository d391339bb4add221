import SparseDatasets.Proofs.Draws
import SparseDatasets.Proofs.ExactSums
import SparseDatasets.Proofs.Gate
import SparseDatasets.Source.Definite

/-!
# Symmetric positive definite operands

A product of a matrix with its transpose is stored from its upper triangle, each
entry on both sides of the diagonal, so that it is symmetric to the last bit. The
factor of a sparse operand has ones on its diagonal, and the sum behind a diagonal
entry starts with the square of such a one: what is added after it are squares, so
no diagonal entry is less than one, and none is zero.

- `Dense.symmetricM_run_eq`: no write fails if a word can count the cells.
- `Mirrors`: the cells after some entries have been stored.
- `Dense.Square`, `Dense.symmetric_square`: a matrix with its entries mirrored.
- `SparseDefinite.UnitLower`: the factor of a sparse operand.
- `atLeast_dot`: the sums on the diagonal.
- `SparseDefinite.generate_yields`: what the source of sparse operands generates.
- `Generated.Symmetric`: what both sources generate in any arithmetic.
-/

namespace SparseDatasets

/-! ## Storing on both sides of the diagonal -/

section Mirror

variable {α : Type} {n : Nat} {entry : Nat → Nat → α}

theorem mem_upperTriangle {i j : Nat} : (i, j) ∈ upperTriangle n ↔ i ≤ j ∧ j < n := by
  simp only [upperTriangle, List.mem_flatMap, List.mem_range, List.mem_map, List.mem_range'_1,
    Prod.mk.injEq]
  constructor
  · rintro ⟨_, hi, _, ⟨hle, hlt⟩, rfl, rfl⟩
    omega
  · rintro ⟨hle, hlt⟩
    exact ⟨i, by omega, j, by omega, rfl, rfl⟩

/-- The cells once a value has been stored at a coordinate and across the diagonal from it. -/
def storeBoth (n : Nat) (cells : Array α) (entry : (Nat × Nat) × α) : Array α :=
  let ((i, j), x) := entry
  (cells.setIfInBounds (i * n + j) x).setIfInBounds (j * n + i) x

theorem size_storeBoth (cells : Array α) (entry : (Nat × Nat) × α) :
    (storeBoth n cells entry).size = cells.size := by
  rw [storeBoth, Array.size_setIfInBounds, Array.size_setIfInBounds]

/-- No write inside a square matrix fails if a word can count the cells. -/
theorem Dense.set_eq {cells : Array α} (hword : n * n < wordLimit) (hsize : cells.size = n * n)
    {i j : Nat} (hi : i < n) (hj : j < n) (x : α) :
    (⟨n, n, cells⟩ : Dense α).set i j x = .ok ⟨n, n, cells.setIfInBounds (i * n + j) x⟩ := by
  have hplace : i * n + j < cells.size := hsize ▸ offset_lt hi hj
  simp only [Dense.set, Dense.writeCell, Dense.offset_eq hi hj hword, hi, hj, and_self, if_true,
    dif_pos hplace, Array.setIfInBounds]

section Fill

variable {m : Type → Type} [Monad m] [LawfulMonad m]

/-- Both writes of an entry succeed. -/
theorem Dense.store_run_eq {entry : m α} {cells : Array α} (hword : n * n < wordLimit)
    (hsize : cells.size = n * n) {i j : Nat} (hi : i < n) (hj : j < n) :
    (do let x ← entry
        let d ← (⟨n, n, cells⟩ : Dense α).set i j x
        d.set j i x : ExceptT AccessFault m (Dense α)).run = do
      return .ok ⟨n, n, storeBoth n cells ((i, j), ← entry)⟩ := by
  rw [run_liftM_bind]
  refine bind_congr fun x => ?_
  rw [run_liftM_bind_of_ok (set_eq hword hsize hi hj x),
    set_eq hword (Array.size_setIfInBounds.trans hsize) hj hi x]
  rfl

/-- Filling a matrix comes down to writing the results of the calls into its cells. -/
theorem Dense.foldlM_set_run_eq {entry : Nat → Nat → m α} {l : List (Nat × Nat)} {cells : Array α}
    (hword : n * n < wordLimit) (hsize : cells.size = n * n) (hl : ∀ c ∈ l, c.1 < n ∧ c.2 < n) :
    (l.foldlM (m := ExceptT AccessFault m) (fun (d : Dense α) (i, j) => do
      let x ← entry i j
      let d ← d.set i j x
      d.set j i x) ⟨n, n, cells⟩).run = do
      let values ← l.mapM fun c => entry c.1 c.2
      return .ok ⟨n, n, (l.zip values).foldl (storeBoth n) cells⟩ := by
  induction l generalizing cells with
  | nil => simp
  | cons c l ih =>
    obtain ⟨⟨hi, hj⟩, hrest⟩ := List.forall_mem_cons.mp hl
    rw [List.foldlM_cons, List.mapM_cons, ExceptT.run_bind, Dense.store_run_eq hword hsize hi hj]
    simp only [bind_assoc, pure_bind]
    refine bind_congr fun x => ?_
    rw [ih ((size_storeBoth ..).trans hsize) hrest]
    rfl

/-- The matrix of an upper triangle, if a word can count its cells. -/
theorem Dense.symmetricM_run_eq [Element α] (hword : n * n < wordLimit)
    (entry : Nat → Nat → m α) : (Dense.symmetricM n entry).run = do
      let values ← (upperTriangle n).mapM fun c => entry c.1 c.2
      return .ok ⟨n, n, ((upperTriangle n).zip values).foldl (storeBoth n)
        (Array.replicate (n * n) 0)⟩ := by
  unfold Dense.symmetricM
  rw [Dense.zeros, show cellCount n n = n * n from Nat.mod_eq_of_lt hword]
  refine Dense.foldlM_set_run_eq hword Array.size_replicate fun c hc => ?_
  obtain ⟨hle, hlt⟩ := mem_upperTriangle.mp hc
  exact ⟨Nat.lt_of_le_of_lt hle hlt, hlt⟩

end Fill

variable [Zero α]

/-- The entries that have been stored stand on both sides of the diagonal, and all other cells are
zero. -/
structure Mirrors (n : Nat) (entry : Nat → Nat → α) (stored : List (Nat × Nat))
    (cells : Array α) : Prop where
  size_eq : cells.size = n * n
  cell : ∀ i j, i ≤ j → j < n → ∀ k, k = i * n + j ∨ k = j * n + i →
    cells[k]? = some (if (i, j) ∈ stored then entry i j else 0)

theorem Mirrors.start : Mirrors n entry [] (Array.replicate (n * n) 0) where
  size_eq := Array.size_replicate
  cell i j hij hj k hk := by
    have hlt : k < n * n := by
      rcases hk with rfl | rfl <;> exact offset_lt (by omega) (by omega)
    rw [if_neg List.not_mem_nil, Array.getElem?_replicate, if_pos hlt]

/-- Storing an entry touches its two cells. -/
theorem Mirrors.store {stored : List (Nat × Nat)} {cells : Array α}
    (h : Mirrors n entry stored cells) {a b : Nat} (hab : a ≤ b) (hb : b < n) :
    Mirrors n entry (stored ++ [(a, b)]) (storeBoth n cells ((a, b), entry a b)) where
  size_eq := (size_storeBoth ..).trans h.size_eq
  cell i j hij hj k hk := by
    have hlt : k < cells.size := by
      rw [h.size_eq]
      rcases hk with rfl | rfl <;> exact offset_lt (by omega) (by omega)
    -- both coordinates are ordered, so the two cells of one entry are not those of another
    have htouched : b * n + a = k ∨ a * n + b = k ↔ (i, j) = (a, b) := by
      rw [Prod.mk.injEq]
      rcases hk with rfl | rfl <;> rw [offset_inj (by omega) (by omega),
        offset_inj (by omega) (by omega)] <;> omega
    have hcell : (storeBoth n cells ((a, b), entry a b))[k]? =
        if b * n + a = k ∨ a * n + b = k then some (entry a b) else cells[k]? := by
      unfold storeBoth
      dsimp only
      rw [Array.getElem?_setIfInBounds, Array.getElem?_setIfInBounds, Array.size_setIfInBounds]
      by_cases hfirst : b * n + a = k
      · simp only [hfirst, hlt, if_true, true_or]
      · by_cases hsecond : a * n + b = k
        · simp only [hfirst, hsecond, hlt, if_true, if_false, or_true]
        · simp only [hfirst, hsecond, if_false, or_self]
    rw [hcell]
    by_cases hsame : (i, j) = (a, b)
    · cases hsame
      rw [if_pos (htouched.mpr rfl), if_pos (by simp)]
    · rw [if_neg (mt htouched.mp hsame), h.cell i j hij hj k hk]
      have hmem : (i, j) ∈ stored ++ [(a, b)] ↔ (i, j) ∈ stored := by
        rw [List.mem_append, List.mem_singleton, or_iff_left hsame]
      simp only [hmem]

theorem Mirrors.run {stored : List (Nat × Nat)} {cells : Array α}
    (h : Mirrors n entry stored cells) {l : List (Nat × Nat)}
    (hl : ∀ c ∈ l, c.1 ≤ c.2 ∧ c.2 < n) :
    Mirrors n entry (stored ++ l)
      ((l.map fun c => (c, entry c.1 c.2)).foldl (storeBoth n) cells) := by
  induction l generalizing stored cells with
  | nil => rwa [List.append_nil]
  | cons c l ih =>
    obtain ⟨hle, hlt⟩ := hl c List.mem_cons_self
    rw [List.append_cons]
    exact ih (h.store hle hlt) fun c hc => hl c (List.mem_cons_of_mem _ hc)

end Mirror

namespace Dense

variable {α : Type}

/-- A square matrix of order `n`, each of whose entries `entry i j` with `i ≤ j` stands on both
sides of the diagonal. -/
structure Square (n : Nat) (entry : Nat → Nat → α) (d : Dense α) : Prop where
  rows_eq : d.rows = n
  cols_eq : d.cols = n
  size_eq : d.cells.size = n * n
  cell : ∀ i j, i ≤ j → j < n →
    d.cells[i * n + j]? = some (entry i j) ∧ d.cells[j * n + i]? = some (entry i j)

/-- The matrix in which the entries of the upper triangle are stored one after the other. -/
theorem square_of_triangle [Zero α] (n : Nat) (entry : Nat → Nat → α) :
    Square n entry ⟨n, n, ((upperTriangle n).map fun c => (c, entry c.1 c.2)).foldl (storeBoth n)
      (Array.replicate (n * n) 0)⟩ := by
  have hmirrors : Mirrors n entry ([] ++ upperTriangle n) _ :=
    Mirrors.start.run fun c hc => mem_upperTriangle.mp hc
  rw [List.nil_append] at hmirrors
  refine ⟨rfl, rfl, hmirrors.size_eq, fun i j hij hj => ?_⟩
  have hmem : (i, j) ∈ upperTriangle n := mem_upperTriangle.mpr ⟨hij, hj⟩
  have hcell := hmirrors.cell i j hij hj
  rw [if_pos hmem] at hcell
  exact ⟨hcell _ (.inl rfl), hcell _ (.inr rfl)⟩

theorem symmetric_square [Element α] {n : Nat} (hword : n * n < wordLimit)
    (entry : Nat → Nat → α) :
    ∃ d, Dense.symmetric n entry = .ok d ∧ Square n entry d := by
  have hvalues : (upperTriangle n).mapM (m := Id) (fun c => pure (entry c.1 c.2)) =
      (upperTriangle n).map fun c => entry c.1 c.2 := List.mapM_pure
  have hmatrix : Dense.symmetric n entry = .ok ⟨n, n, ((upperTriangle n).zip
      ((upperTriangle n).mapM (m := Id) fun c => pure (entry c.1 c.2))).foldl (storeBoth n)
        (Array.replicate (n * n) 0)⟩ := by
    unfold Dense.symmetric
    rw [symmetricM_run_eq hword]
    rfl
  rw [hmatrix, hvalues, ← List.map_prod_left_eq_zip]
  exact ⟨_, rfl, square_of_triangle n entry⟩

namespace Square

variable {n : Nat} {entry : Nat → Nat → α} {d : Dense α}

theorem wellShaped (h : d.Square n entry) (hword : n * n < wordLimit) : d.WellShaped where
  size_eq := by rw [h.size_eq, h.rows_eq, h.cols_eq]
  size_lt := by rwa [h.size_eq]

/-- Both sides of the diagonal have the very same values. -/
theorem cell_eq (h : d.Square n entry) {i j : Nat} (hi : i < n) (hj : j < n) :
    d.cells[i * n + j]? = some (entry (min i j) (max i j)) := by
  rcases Nat.le_total i j with hle | hle
  · rw [Nat.min_eq_left hle, Nat.max_eq_right hle]
    exact (h.cell i j hle hj).1
  · rw [Nat.min_eq_right hle, Nat.max_eq_left hle]
    exact (h.cell j i hle hi).2

theorem get_eq (h : d.Square n entry) (hword : n * n < wordLimit) {i j : Nat} (hi : i < n)
    (hj : j < n) : d.get i j = .ok (entry (min i j) (max i j)) := by
  rw [(h.wellShaped hword).get_eq_ok_iff (h.rows_eq ▸ hi) (h.cols_eq ▸ hj), h.cols_eq]
  exact h.cell_eq hi hj

end Square

end Dense

/-! ## Matrices made of what is drawn -/

/-- A matrix that is made of what is drawn, with its nonzero cells declared. -/
theorem Generated.run_eq {σ α β : Type} [Element α] {draw : Draw σ β}
    {make : β → Except AccessFault (Dense α)} {d : Dense α} {s : σ}
    (h : make (draw.run s).1 = .ok d) :
    (do let x ← draw
        let dense ← make x
        return ⟨dense, dense.support⟩ : ExceptT AccessFault (Draw σ) (Generated α)).run.run s =
      (.ok ⟨d, d.support⟩, (draw.run s).2) := by
  rw [run_liftM_bind, StateT.run_bind]
  exact congrArg (StateT.run · (draw.run s).2) (run_liftM_bind_of_ok h _)

theorem Generated.yields {σ α β : Type} [Element α] {P : β → Prop} {Q : Dense α → Prop}
    {draw : Draw σ β} {make : β → Except AccessFault (Dense α)} (hdraw : Draw.Yields P draw)
    (hmake : ∀ x, P x → ∃ d, make x = .ok d ∧ Q d) :
    Draw.Yields (fun r => ∃ g : Generated α, r = .ok g ∧ g.support = g.dense.support ∧ Q g.dense)
      (do let x ← draw
          let dense ← make x
          return ⟨dense, dense.support⟩ : ExceptT AccessFault (Draw σ) (Generated α)).run := by
  intro s
  obtain ⟨d, hd, hgood⟩ := hmake _ (hdraw s)
  exact ⟨⟨d, d.support⟩, congrArg Prod.fst (Generated.run_eq hd), rfl, hgood⟩

/-! ## Random numbers and the factor -/

namespace Binary64

theorem isNaN_of_rational? {x : Binary64} {q : ℚ} (h : x.rational? = some q) :
    x.isNaN = false := by
  rw [← Bool.not_eq_true]
  intro hnan
  rw [rational?, hnan, Bool.true_or, if_pos rfl] at h
  cases h

/-- Zero and one are from minus one to one. -/
theorem exists_rational?_zero : ∃ q, rational? 0 = some q ∧ |q| ≤ 1 :=
  ⟨0, rational?_zero, by simp⟩

theorem exists_rational?_one : ∃ q, rational? 1 = some q ∧ |q| ≤ 1 :=
  ⟨1, rational?_one, by simp⟩

theorem nonzero_yields {σ : Type} [WordStream σ] :
    Draw.Yields (fun x : Binary64 => Element.isZero x = false ∧ ∃ q, x.rational? = some q ∧ |q| ≤ 1)
      (Draw.nonzero : Draw σ Binary64) := by
  unfold Draw.nonzero
  refine .drawUntil (P := fun x => ∃ q, x.rational? = some q ∧ |q| ≤ 1) ?_
    (fun x hx haccept => ?_) ?_
  · exact .bind (.trivial _) fun bits _ => .pure (exists_rational?_signedOfBits bits)
  · exact ⟨by simpa using haccept, hx⟩
  · exact ⟨by decide, exists_rational?_one⟩

end Binary64

namespace SparseDefinite

/-- What an entry of a factor may be: zero above the diagonal, one on it, and below it zero or a
number that is not zero. It is a number from minus one to one wherever it stands. -/
structure FactorEntry (i j : Nat) (x : Binary64) : Prop where
  above : i < j → x = 0
  diagonal : i = j → x = 1
  below : j < i → x = 0 ∨ Element.isZero x = false
  finite : ∃ q, x.rational? = some q ∧ |q| ≤ 1

theorem FactorEntry.number {i j : Nat} {x : Binary64} (h : FactorEntry i j x) :
    x.isNaN = false := by
  obtain ⟨q, hq, -⟩ := h.finite
  exact Binary64.isNaN_of_rational? hq

variable {σ : Type} [WordStream σ]

theorem factorEntry_yields (source : SparseDefinite) (i j : Nat) :
    Draw.Yields (FactorEntry i j) (source.factorEntry i j : Draw σ Binary64) := by
  unfold factorEntry
  rcases Nat.lt_trichotomy i j with habove | rfl | hbelow
  · rw [if_pos habove]
    exact .pure ⟨fun _ => rfl, by omega, fun _ => .inl rfl, Binary64.exists_rational?_zero⟩
  · rw [if_neg (Nat.lt_irrefl i), if_pos rfl]
    exact .pure ⟨by omega, fun _ => rfl, by omega, Binary64.exists_rational?_one⟩
  · rw [if_neg (by omega), if_neg (by omega)]
    refine .bind (.trivial _) fun present _ => ?_
    cases present with
    | true =>
      intro s
      obtain ⟨hnonzero, hfinite⟩ := Binary64.nonzero_yields s
      exact ⟨by omega, by omega, fun _ => .inr hnonzero, hfinite⟩
    | false =>
      exact .pure ⟨fun _ => rfl, by omega, fun _ => .inl rfl, Binary64.exists_rational?_zero⟩

/-- The factor of a sparse operand: ones on the diagonal, zeros above it, and numbers below. -/
def UnitLower (n : Nat) (factor : Dense Binary64) : Prop :=
  ∀ i < n, ∀ j < n, FactorEntry i j (factor.entry i j)

theorem factor_yields (source : SparseDefinite) :
    Draw.Yields (UnitLower source.size) (source.factor : Draw σ (Dense Binary64)) :=
  Dense.ofFnM_yields source.factorEntry_yields

end SparseDefinite

/-! ## The diagonal of a product -/

/-- Adding squares of numbers does not take a sum below a bound. -/
theorem atLeast_foldl {p : ℚ} (hp : 0 ≤ p) {x : Nat → Binary64} {rows : List Nat}
    (hx : ∀ k ∈ rows, (x k).isNaN = false) {sum : Binary64}
    (hsum : AtLeast p sum.unpacked) :
    AtLeast p (rows.foldl (fun sum k => sum + x k * x k) sum).unpacked := by
  induction rows generalizing sum with
  | nil => exact hsum
  | cons k rows ih =>
    refine ih (fun l hl => hx l (List.mem_cons_of_mem _ hl)) ?_
    exact Binary64.atLeast_add hsum hp (Binary64.atLeast_mul_self (hx k List.mem_cons_self))

/-- The sum of the squares of a column from a one on. -/
theorem atLeast_dot {x : Nat → Nat → Binary64} {n i : Nat} (hi : i < n) (hone : x i i = 1)
    (hx : ∀ k < n, (x k i).isNaN = false) : AtLeast 1 (dot x i n i i).unpacked := by
  obtain ⟨count, hcount⟩ : ∃ count, n - i = count + 1 := ⟨n - i - 1, by omega⟩
  -- the rows above hold zeros and are left out, so the sum starts with the one on the diagonal
  unfold dot
  rw [hcount, List.range'_succ, List.foldl_cons, hone, Binary64.one_mul_one,
    Binary64.zero_add_one]
  refine atLeast_foldl zero_le_one (fun k hk => hx k ?_) Binary64.atLeast_one
  have := (List.mem_range'_1.mp hk).2
  omega

namespace SparseDefinite

/-- What the source of sparse operands generates: a symmetric matrix none of whose diagonal entries
is less than one, with all its nonzero cells declared. -/
structure Makes (source : SparseDefinite) (g : Generated Binary64) : Prop where
  support_eq : g.support = g.dense.support
  square : ∃ entry, g.dense.Square source.size entry ∧
    ∀ i < source.size, AtLeast 1 (entry i i).unpacked

theorem product_square {n : Nat} (hword : n * n < wordLimit) (factor : Dense Binary64) :
    ∃ d, product factor n = .ok d ∧
      d.Square n fun i j => dot factor.entry (max j i) n i j :=
  Dense.symmetric_square hword _

/-- No run of the source ends in a fault. -/
theorem generate_yields {σ : Type} [WordStream σ] (source : SparseDefinite) :
    Draw.Yields (fun r => ∃ g, r = .ok g ∧ source.Makes g)
      (source.generate : ExceptT AccessFault (Draw σ) (Generated Binary64)).run := by
  have hmake (factor : Dense Binary64) (hfactor : UnitLower source.size factor) :
      ∃ d, product factor source.size = .ok d ∧ ∃ entry, d.Square source.size entry ∧
        ∀ i < source.size, AtLeast 1 (entry i i).unpacked := by
    obtain ⟨d, hd, hsquare⟩ := product_square source.cells_lt factor
    refine ⟨d, hd, _, hsquare, fun i hi => ?_⟩
    rw [Nat.max_self]
    exact atLeast_dot hi ((hfactor i hi i hi).diagonal rfl) fun k hk => (hfactor k hk i hi).number
  intro s
  obtain ⟨g, hg, hsupport, hsquare⟩ := Generated.yields source.factor_yields hmake s
  exact ⟨g, hg, hsupport, hsquare⟩

end SparseDefinite

/-! ## Symmetry in any arithmetic -/

/-- A symmetric matrix of order `n`, with its nonzero cells declared. -/
structure Generated.Symmetric {α : Type} [Element α] (n : Nat) (g : Generated α) : Prop where
  support_eq : g.support = g.dense.support
  square : ∃ entry, g.dense.Square n entry

/-- A symmetric matrix that is made of what is drawn. -/
theorem Generated.yields_symmetric {σ α β : Type} [Element α] {n : Nat}
    (hword : n * n < wordLimit) (draw : Draw σ β) (entry : β → Nat → Nat → α) :
    Draw.Yields (fun r => ∃ g, r = .ok g ∧ Generated.Symmetric n g)
      (do let x ← draw
          let dense ← Dense.symmetric n (entry x)
          return ⟨dense, dense.support⟩ : ExceptT AccessFault (Draw σ) (Generated α)).run := by
  have hmake (x : β) : ∃ d, Dense.symmetric n (entry x) = .ok d ∧ ∃ entry, d.Square n entry := by
    obtain ⟨d, hd, hsquare⟩ := Dense.symmetric_square hword (entry x)
    exact ⟨d, hd, _, hsquare⟩
  intro s
  obtain ⟨g, hg, hsupport, hsquare⟩ := Generated.yields (.trivial draw) (fun x _ => hmake x) s
  exact ⟨g, hg, hsupport, hsquare⟩

section

variable {σ α : Type} [WordStream σ] [Scalar α]

theorem SparseDefinite.generate_symmetric (source : SparseDefinite) :
    Draw.Yields (fun r => ∃ g, r = .ok g ∧ Generated.Symmetric source.size g)
      (source.generate : ExceptT AccessFault (Draw σ) (Generated α)).run :=
  Generated.yields_symmetric source.cells_lt source.factor _

theorem DenseDefinite.generate_symmetric (source : DenseDefinite) :
    Draw.Yields (fun r => ∃ g, r = .ok g ∧ Generated.Symmetric source.size g)
      (source.generate : ExceptT AccessFault (Draw σ) (Generated α)).run :=
  Generated.yields_symmetric source.cells_lt (Dense.ofFnM source.size source.size _) _

end

end SparseDatasets
