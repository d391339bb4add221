import Mathlib.Data.List.Forall2
import Mathlib.Data.List.Range
import SparseDatasets.Proofs.Offsets
import SparseDatasets.Random.Subset
import SparseDatasets.Source.Basic

/-!
# What is drawn, whatever the stream

A claim about generated data has to hold for every stream of words, so it rests on
what a draw gives from any state of any stream. A draw yields a property if all its
results have it; composed draws yield what their steps yield, and a loop yields its
invariant.

- `Draw.Yields`: every result of a draw has a property.
- `Draw.Yields.bind`, `Draw.Yields.foldlM_range`, `Draw.Yields.mapM`: composition and loops.
- `Draw.Yields.drawUntil`: draws that are repeated until one is accepted.
- `Draw.vector_yields`, `Draw.below_yields`: vectors, and numbers below a bound.
- `Dense.ofFnM_yields`, `Dense.ofFnM_size`: matrices whose entries are drawn one by one.
-/

namespace SparseDatasets

/-- Every result of a draw has a property, whatever the state of the stream. -/
def Draw.Yields {σ α : Type} (P : α → Prop) (draw : Draw σ α) : Prop := ∀ s, P (draw.run s).1

namespace Draw.Yields

variable {σ α β : Type} {P : α → Prop} {Q : β → Prop}

theorem pure {x : α} (h : P x) : Yields P (Pure.pure x : Draw σ α) := fun _ => h

theorem bind {draw : Draw σ α} {f : α → Draw σ β} (hdraw : Yields P draw)
    (hf : ∀ x, P x → Yields Q (f x)) : Yields Q (draw >>= f) := fun s =>
  hf _ (hdraw s) (draw.run s).2

theorem trivial (draw : Draw σ α) : Yields (fun _ => True) draw := fun _ => True.intro

/-- What a draw yields may be assumed of its results. -/
theorem bind_congr {draw : Draw σ α} {f g : α → Draw σ β} (hdraw : Yields P draw)
    (h : ∀ x, P x → f x = g x) : draw >>= f = draw >>= g :=
  funext fun s => congrFun (h _ (hdraw s)) (draw.run s).2

/-! ## Loops -/

/-- A loop over consecutive numbers yields what its steps preserve. -/
theorem foldlM_range' {f : β → Nat → Draw σ β} {I : Nat → β → Prop} {start count : Nat} {init : β}
    (hinit : I 0 init)
    (hstep : ∀ k b, k < count → I k b → Yields (I (k + 1)) (f b (start + k))) :
    Yields (I count) ((List.range' start count).foldlM f init) := by
  induction count with
  | zero => exact pure hinit
  | succ count ih =>
    -- the last step comes after a loop that is shorter by one
    rw [List.range'_concat, List.foldlM_append, Nat.one_mul]
    refine bind (ih fun k b hlt => hstep k b (by omega)) fun b hb => ?_
    rw [List.foldlM_cons]
    exact bind (hstep count b (Nat.lt_succ_self _) hb) fun b hb => pure hb

/-- A loop over the numbers below a bound. -/
theorem foldlM_range {f : β → Nat → Draw σ β} {I : Nat → β → Prop} {count : Nat} {init : β}
    (hinit : I 0 init) (hstep : ∀ k b, k < count → I k b → Yields (I (k + 1)) (f b k)) :
    Yields (I count) ((List.range count).foldlM f init) := by
  rw [List.range_eq_range']
  refine foldlM_range' hinit fun k b hlt hb => ?_
  rw [Nat.zero_add]
  exact hstep k b hlt hb

/-- One draw for each element of a list gives one result for each. -/
theorem mapM {f : α → Draw σ β} {R : α → β → Prop} {l : List α}
    (h : ∀ x ∈ l, Yields (R x) (f x)) : Yields (List.Forall₂ R l) (l.mapM f) := by
  induction l with
  | nil => exact pure .nil
  | cons x l ih =>
    rw [List.mapM_cons]
    refine bind (h x List.mem_cons_self) fun y hy => ?_
    refine bind (ih fun x hx => h x (List.mem_cons_of_mem _ hx)) fun ys hys => ?_
    exact pure (.cons hy hys)

theorem length_mapM (f : α → Draw σ β) (l : List α) :
    Yields (fun results => results.length = l.length) (l.mapM f) := fun s =>
  (mapM (fun x _ => trivial (f x)) s).length_eq.symm

/-! ## Repeated draws -/

theorem drawUntil? {draw : Draw σ α} {accept : α → Bool} (hdraw : Yields P draw) (fuel : Nat) :
    Yields (fun result => ∀ x, result = some x → P x ∧ accept x = true)
      (drawUntil? draw accept fuel) := by
  induction fuel with
  | zero => exact pure fun x h => by cases h
  | succ fuel ih =>
    unfold SparseDatasets.drawUntil?
    refine bind hdraw fun x hx => ?_
    by_cases haccept : accept x = true
    · rw [if_pos haccept]
      refine pure fun y h => ?_
      cases h
      exact ⟨hx, haccept⟩
    · rw [if_neg haccept]
      exact ih

/-- A repeated draw yields what the draws that are accepted have in common with the fallback. -/
theorem drawUntil {draw : Draw σ α} {accept : α → Bool} {fallback : Unit → α} {P' : α → Prop}
    (hdraw : Yields P draw) (haccept : ∀ x, P x → accept x = true → P' x)
    (hfallback : P' (fallback ())) : Yields P' (drawUntil draw accept fallback) := by
  unfold SparseDatasets.drawUntil
  refine bind (drawUntil? hdraw patience) fun result hresult => ?_
  cases result with
  | none => exact pure hfallback
  | some x =>
    obtain ⟨hx, hok⟩ := hresult x rfl
    exact pure (haccept x hx hok)

end Draw.Yields

/-- A vector has as many entries as it is asked for. -/
theorem Draw.vector_yields {σ α : Type} [WordStream σ] [Scalar α] (length : Nat) :
    Yields (fun entries => entries.size = length) (vector length : Draw σ (Array α)) := by
  unfold vector
  refine (Yields.length_mapM _ _).bind fun entries h => .pure ?_
  rw [List.size_toArray, h, List.length_range]

/-- A number that is drawn below a bound is below it. -/
theorem Draw.below_yields {σ : Type} [WordStream σ] {bound : Nat} (h : 0 < bound) :
    Yields (· < bound) (below bound : Draw σ Nat) := by
  have hproduct : Yields (fun product => product / UInt32.size < bound)
      (do return (← word).toNat * bound : Draw σ Nat) := by
    refine .bind (.trivial _) fun w _ => .pure ?_
    have hw : w.toNat < UInt32.size := w.toNat_lt
    exact Nat.div_lt_of_lt_mul (Nat.mul_lt_mul_of_pos_right hw h)
  unfold below
  refine .bind (.drawUntil hproduct (fun _ hx _ => hx) ?_) fun product hlt => .pure hlt
  show 0 / _ < bound
  rw [Nat.zero_div]
  exact h

namespace Dense

variable {σ α : Type}

theorem ofFnM_size {rows cols : Nat} {f : Nat → Nat → Draw σ α} :
    Draw.Yields (fun d => d.cells.size = d.rows * d.cols) (ofFnM rows cols f) := by
  unfold ofFnM
  refine (Draw.Yields.length_mapM _ _).bind fun cells hcells => .pure ?_
  show cells.toArray.size = rows * cols
  rw [List.size_toArray, hcells, coordinates, List.length_map, List.length_range]

/-- A matrix whose entries are drawn has in each cell what was drawn for it. -/
theorem ofFnM_yields [Element α] {f : Nat → Nat → Draw σ α} {P : Nat → Nat → α → Prop}
    {rows cols : Nat} (h : ∀ i j, Draw.Yields (P i j) (f i j)) :
    Draw.Yields (fun d => ∀ i < rows, ∀ j < cols, P i j (d.entry i j)) (ofFnM rows cols f) := by
  unfold ofFnM
  refine (Draw.Yields.mapM (R := fun c => P c.1 c.2) fun c _ => h c.1 c.2).bind
    fun cells hcells => .pure fun i hi j hj => ?_
  have hlt : i * cols + j < (coordinates rows cols).length := by
    rw [coordinates, List.length_map, List.length_range]
    exact offset_lt hi hj
  have hlt' : i * cols + j < cells.length := hcells.length_eq ▸ hlt
  -- the coordinates at this place are those of the cell
  have hcell := hcells.get hlt hlt'
  have hcoordinates : (coordinates rows cols).get ⟨i * cols + j, hlt⟩ = (i, j) := by
    simp [coordinates, offset_div i hj, offset_mod i hj]
  rw [hcoordinates] at hcell
  have hentry : (⟨rows, cols, cells.toArray⟩ : Dense α).entry i j =
      cells.get ⟨i * cols + j, hlt'⟩ := by
    show cells.toArray.getD (i * cols + j) 0 = _
    simp [Array.getD_eq_getD_getElem?, hlt']
  rw [hentry]
  exact hcell

end Dense

end SparseDatasets
