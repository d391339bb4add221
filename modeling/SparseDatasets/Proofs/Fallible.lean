/-!
# Computations that may fail

What the success of a sequence of checks says about each of them. The checks of
this library throw at the first thing that is wrong, so each of these facts takes
a successful run apart, or puts one together.

- `bind_eq_ok`: two steps.
- `guard_eq_ok`: a check in front of a computation.
- `forM_eq_ok`: one check for each element.
- `mapM_eq_ok`, `mapM_ite`: one computation for each element.
- `foldlM_succ`: a fold over the numbers below a bound, and the last step of it.
- `foldlM_congr`, `foldlM_preserves`: folds with the same steps, and what all of them preserve.
- `bind_eq_error`, `forM_eq_error`, `foldlM_eq_error`: where an error comes from.
- `forM_range'_eq_error`, `foldlM_range_eq_error`: which step along consecutive numbers fails first.
- `run_liftM_bind`, `run_liftM_bind_of_ok`, `run_liftM_bind_of_error`: a step that is lifted into a
  computation that may fail.
-/

namespace SparseDatasets

variable {ε α β : Type}

theorem bind_eq_ok {x : Except ε α} {f : α → Except ε β} {b : β} :
    (x >>= f) = .ok b ↔ ∃ a, x = .ok a ∧ f a = .ok b := by
  cases x <;> simp [bind, Except.bind]

theorem pure_eq_ok {a b : α} : (pure a : Except ε α) = .ok b ↔ a = b := by
  simp [pure, Except.pure]

theorem ok_bind {a : α} {f : α → Except ε β} : (.ok a >>= f) = f a := rfl

/-- An error is no result. -/
theorem not_error_eq_ok {e : ε} : ¬ ∃ a, (.error e : Except ε α) = .ok a := by simp

/-- What follows a throw is not run. -/
theorem throw_bind {e : ε} {f : α → Except ε β} : (throw e >>= f : Except ε β) = throw e := rfl

/-- A check that throws in front of a computation must not throw. -/
theorem guard_eq_ok {p : Prop} [Decidable p] {e : ε} {x : Except ε α} {a : α} :
    (if p then throw e else x) = .ok a ↔ ¬ p ∧ x = .ok a := by
  by_cases h : p <;> simp [h, throw, throwThe, MonadExceptOf.throw]

/-- Checking each element succeeds iff each of the checks does. -/
theorem forM_eq_ok {f : α → Except ε Unit} {l : List α} :
    l.forM f = .ok () ↔ ∀ x ∈ l, f x = .ok () := by
  induction l with
  | nil => simp [pure, Except.pure]
  | cons x l ih =>
    show (f x >>= fun _ => l.forM f) = .ok () ↔ _
    rw [bind_eq_ok]
    constructor
    · rintro ⟨⟨⟩, hx, hl⟩ y hy
      rcases List.mem_cons.mp hy with rfl | hy
      · exact hx
      · exact ih.mp hl y hy
    · intro h
      exact ⟨(), h x List.mem_cons_self, ih.mpr fun y hy => h y (List.mem_cons_of_mem _ hy)⟩

/-- Computations that all succeed give the list of their results. -/
theorem mapM_eq_ok {f : α → Except ε β} {g : α → β} {l : List α}
    (h : ∀ x ∈ l, f x = .ok (g x)) : l.mapM f = .ok (l.map g) := by
  induction l with
  | nil => rfl
  | cons x l ih =>
    rw [List.mapM_cons, h x List.mem_cons_self, ih fun y hy => h y (List.mem_cons_of_mem _ hy)]
    rfl

/-- Computations that refuse some of the elements give all results, or the error of the first
element that is refused. -/
theorem mapM_ite {p : α → Prop} [DecidablePred p] {f : α → β} {e : α → ε} (l : List α) :
    l.mapM (fun x => if p x then Except.ok (f x) else .error (e x)) =
      (l.find? fun x => ¬ p x).elim (Except.ok (l.map f)) fun x => .error (e x) := by
  induction l with
  | nil => rfl
  | cons x l ih =>
    rw [List.mapM_cons, ih]
    by_cases hx : p x
    · rw [if_pos hx, ok_bind, List.find?_cons_of_neg (by simpa using hx)]
      cases l.find? fun x => ¬ p x <;> rfl
    · rw [if_neg hx, List.find?_cons_of_pos (by simpa using hx)]
      rfl

/-- The last step of a fold over the numbers below a bound. -/
theorem foldlM_succ {f : α → Nat → Except ε α} {n : Nat} {a : α} :
    (List.range (n + 1)).foldlM f a = (List.range n).foldlM f a >>= fun b => f b n := by
  rw [List.range_succ, List.foldlM_append]
  congr 1
  funext b
  rw [List.foldlM_cons]
  exact bind_pure _

/-- Folds whose steps do the same on each element are the same. -/
theorem foldlM_congr {f g : β → α → Except ε β} {l : List α} {b : β}
    (h : ∀ x ∈ l, ∀ b, f b x = g b x) : l.foldlM f b = l.foldlM g b := by
  induction l generalizing b with
  | nil => rfl
  | cons x l ih =>
    rw [List.foldlM_cons, List.foldlM_cons, h x List.mem_cons_self]
    exact congrArg _ (funext fun _ => ih fun y hy => h y (List.mem_cons_of_mem _ hy))

/-- What every step of a fold preserves, the fold does. -/
theorem foldlM_preserves {P : β → Prop} {f : β → α → Except ε β} {l : List α} {b c : β}
    (hstep : ∀ b x c, P b → f b x = .ok c → P c) (hb : P b) (h : l.foldlM f b = .ok c) : P c := by
  induction l generalizing b with
  | nil =>
    cases h
    exact hb
  | cons x l ih =>
    rw [List.foldlM_cons, bind_eq_ok] at h
    obtain ⟨next, hnext, hrest⟩ := h
    exact ih (hstep b x next hb hnext) hrest

/-! ## Errors -/

theorem bind_eq_error {x : Except ε α} {f : α → Except ε β} {e : ε} :
    (x >>= f) = .error e ↔ x = .error e ∨ ∃ a, x = .ok a ∧ f a = .error e := by
  cases x <;> simp [bind, Except.bind]

/-- A check that throws in front of a computation. -/
theorem guard_eq_error {p : Prop} [Decidable p] {e e' : ε} {x : Except ε α} :
    (if p then throw e else x) = .error e' ↔ p ∧ e = e' ∨ ¬ p ∧ x = .error e' := by
  by_cases h : p <;> simp [h, throw, throwThe, MonadExceptOf.throw]

/-- If checking each element fails, one of the checks does. -/
theorem forM_eq_error {f : α → Except ε Unit} {l : List α} {e : ε} (h : l.forM f = .error e) :
    ∃ x ∈ l, f x = .error e := by
  induction l with
  | nil => cases h
  | cons x l ih =>
    rcases bind_eq_error.mp h with hx | ⟨_, -, hl⟩
    · exact ⟨x, List.mem_cons_self, hx⟩
    · obtain ⟨y, hy, hfails⟩ := ih hl
      exact ⟨y, List.mem_cons_of_mem _ hy, hfails⟩

/-- If a fold fails, one of its steps does. -/
theorem foldlM_eq_error {f : β → α → Except ε β} {l : List α} {b : β} {e : ε}
    (h : l.foldlM f b = .error e) : ∃ c, ∃ x ∈ l, f c x = .error e := by
  induction l generalizing b with
  | nil => cases h
  | cons x l ih =>
    rw [List.foldlM_cons] at h
    rcases bind_eq_error.mp h with hx | ⟨_, -, hl⟩
    · exact ⟨b, x, List.mem_cons_self, hx⟩
    · obtain ⟨c, y, hy, hfails⟩ := ih hl
      exact ⟨c, y, List.mem_cons_of_mem _ hy, hfails⟩

/-! ## First errors -/

theorem eq_ok_iff_not_error {x : Except ε Unit} : x = .ok () ↔ ∀ e, x ≠ .error e := by
  cases x <;> simp

/-- Checks of consecutive numbers fail as the first of them does that fails. -/
theorem forM_range'_eq_error {f : Nat → Except ε Unit} {start n : Nat} {e : ε} :
    (List.range' start n).forM f = .error e ↔
      ∃ i, start ≤ i ∧ i < start + n ∧ f i = .error e ∧
        ∀ j, start ≤ j → j < i → f j = .ok () := by
  induction n generalizing start with
  | zero =>
    constructor
    · intro h
      cases h
    · rintro ⟨i, hge, hlt, -⟩
      omega
  | succ n ih =>
    show (f start >>= fun _ => (List.range' (start + 1) n).forM f) = .error e ↔ _
    rw [bind_eq_error]
    constructor
    · rintro (hfirst | ⟨⟨⟩, hfirst, hrest⟩)
      · exact ⟨start, Nat.le_refl _, by omega, hfirst, fun j hge hlt => by omega⟩
      · obtain ⟨i, hge, hlt, hfails, hbefore⟩ := ih.mp hrest
        refine ⟨i, by omega, by omega, hfails, fun j hj hji => ?_⟩
        rcases Nat.eq_or_lt_of_le hj with rfl | hj
        · exact hfirst
        · exact hbefore j hj hji
    · rintro ⟨i, hge, hlt, hfails, hbefore⟩
      rcases Nat.eq_or_lt_of_le hge with rfl | hgt
      · exact .inl hfails
      · refine .inr ⟨(), hbefore start (Nat.le_refl _) hgt, ih.mpr ⟨i, hgt, by omega, hfails, ?_⟩⟩
        intro j hj hji
        exact hbefore j (by omega) hji

/-- A fold over the numbers below a bound fails as the first of its steps does that fails. -/
theorem foldlM_range_eq_error {f : α → Nat → Except ε α} {n : Nat} {a : α} {e : ε} :
    (List.range n).foldlM f a = .error e ↔
      ∃ i < n, ∃ b, (List.range i).foldlM f a = .ok b ∧ f b i = .error e := by
  induction n with
  | zero =>
    constructor
    · intro h
      cases h
    · rintro ⟨i, hi, -⟩
      exact absurd hi (Nat.not_lt_zero i)
  | succ n ih =>
    rw [foldlM_succ, bind_eq_error, ih]
    constructor
    · rintro (⟨i, hi, b, hbefore, hfails⟩ | ⟨b, hbefore, hfails⟩)
      · exact ⟨i, Nat.lt_succ_of_lt hi, b, hbefore, hfails⟩
      · exact ⟨n, Nat.lt_succ_self n, b, hbefore, hfails⟩
    · rintro ⟨i, hi, b, hbefore, hfails⟩
      rcases Nat.lt_succ_iff_lt_or_eq.mp hi with hi | rfl
      · exact .inl ⟨i, hi, b, hbefore, hfails⟩
      · exact .inr ⟨b, hbefore, hfails⟩

/-! ## Lifted steps -/

section Lifted

variable {m : Type → Type} [Monad m] [LawfulMonad m] {ε α β : Type}

/-- A step that cannot fail, with steps behind it that may. -/
theorem run_liftM_bind (x : m α) (f : α → ExceptT ε m β) :
    (liftM x >>= f : ExceptT ε m β).run = x >>= fun a => (f a).run :=
  ExceptT.run_bind_lift x f

theorem run_liftM_bind_of_ok {x : Except ε α} {a : α} (h : x = .ok a) (f : α → ExceptT ε m β) :
    (liftM x >>= f : ExceptT ε m β).run = (f a).run := by
  rw [h]
  exact pure_bind _ _

theorem run_liftM_bind_of_error {x : Except ε α} {e : ε} (h : x = .error e)
    (f : α → ExceptT ε m β) : (liftM x >>= f : ExceptT ε m β).run = pure (.error e) := by
  rw [h]
  exact pure_bind _ _

end Lifted

end SparseDatasets
