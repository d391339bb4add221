import SparseDatasets.Number.Shortest
import SparseDatasets.Proofs.Rounding

/-!
# The shortest decimal rounds back

The search for the shortest decimal asks each grid for a point in the interval of
the numbers that round to the word. A grid no coarser than half the last place has
one, and the search comes to such a grid, so what it finds rounds back to the word.
Only the bound on the first grid depends on the width of the word.

- `Decimal.value`: the number that a decimal stands for.
- `RoundingInterval.Contains`: the numbers in the interval.
- `RoundingInterval.holds_iff`: the question in whole numbers is the one in rationals.
- `RoundingInterval.isSome_onGrid`: the grids that have a point in the interval.
- `RoundingInterval.search_contains`: the search ends in the interval.
- `Binary64.shortest_roundsTo`: **the shortest decimal of a double rounds to it.**
-/

namespace SparseDatasets

open BinaryLayout (double)

/-- The number that a decimal stands for. -/
def Decimal.value (d : Decimal) : ℚ := d.digits * 10 ^ d.exponent

namespace Decimal

/-- Zeros at the end of the digits go into the exponent. -/
theorem value_trimZeros (fuel : Nat) (d : Decimal) : (trimZeros fuel d).value = d.value := by
  induction fuel generalizing d with
  | zero => rfl
  | succ fuel ih =>
    unfold trimZeros
    split
    · rename_i hzero
      have hdigits : d.digits = 10 * (d.digits / 10) := by omega
      rw [ih]
      show ((d.digits / 10 : Nat) : ℚ) * 10 ^ (d.exponent + 1) = d.digits * 10 ^ d.exponent
      nth_rewrite 2 [hdigits]
      rw [zpow_add_one₀ (by norm_num)]
      push_cast
      ring
    · rfl

end Decimal

namespace RoundingInterval

variable {interval : RoundingInterval} {tie : Tie} {d : Nat} {k : Int}

/-- A number in the interval, the ends included iff it is closed. -/
def Contains (interval : RoundingInterval) (p : ℚ) : Prop :=
  if interval.closed then
    interval.lower * 2 ^ interval.unit ≤ p ∧ p ≤ interval.upper * 2 ^ interval.unit
  else interval.lower * 2 ^ interval.unit < p ∧ p < interval.upper * 2 ^ interval.unit

/-- The number itself lies inside, and the upper end two quarters above it. -/
structure Wide (interval : RoundingInterval) : Prop where
  value_ge : 2 ≤ interval.value
  lower_lt : interval.lower < interval.value
  upper_eq : interval.upper = interval.value + 2

theorem contains_of_lt {p : ℚ} (hlow : interval.lower * 2 ^ interval.unit < p)
    (hhigh : p < interval.upper * 2 ^ interval.unit) : interval.Contains p := by
  unfold Contains
  split
  · exact ⟨hlow.le, hhigh.le⟩
  · exact ⟨hlow, hhigh⟩

/-! ## Points of a grid -/

/-- The unit that makes a quarter place and a step of the grid whole numbers. -/
def commonScale (interval : RoundingInterval) (k : Int) : ℚ :=
  2 ^ (-interval.unit).toNat * 10 ^ (-k).toNat

theorem commonScale_pos : 0 < interval.commonScale k := by
  unfold commonScale
  positivity

theorem gridScale_eq : (interval.gridScale k : ℚ) = 10 ^ k * interval.commonScale k := by
  show ((2 ^ (-interval.unit).toNat * 10 ^ k.toNat : Nat) : ℚ) = _
  unfold commonScale
  push_cast
  rw [← zpow_mul_toNat (by norm_num : (10 : ℚ) ≠ 0)]
  ring

theorem quarterScale_eq :
    (interval.quarterScale k : ℚ) = 2 ^ interval.unit * interval.commonScale k := by
  show ((2 ^ interval.unit.toNat * 10 ^ (-k).toNat : Nat) : ℚ) = _
  unfold commonScale
  push_cast
  rw [← zpow_mul_toNat (by norm_num : (2 : ℚ) ≠ 0)]
  ring

theorem quarter_le_grid_iff (n d : Nat) :
    n * interval.quarterScale k ≤ d * interval.gridScale k ↔
      (n : ℚ) * 2 ^ interval.unit ≤ d * 10 ^ k := by
  rw [← Nat.cast_le (α := ℚ), Nat.cast_mul, Nat.cast_mul, quarterScale_eq, gridScale_eq,
    ← mul_assoc, ← mul_assoc, mul_le_mul_iff_of_pos_right commonScale_pos]

theorem grid_le_quarter_iff (d n : Nat) :
    d * interval.gridScale k ≤ n * interval.quarterScale k ↔
      (d : ℚ) * 10 ^ k ≤ n * 2 ^ interval.unit := by
  rw [← Nat.cast_le (α := ℚ), Nat.cast_mul, Nat.cast_mul, quarterScale_eq, gridScale_eq,
    ← mul_assoc, ← mul_assoc, mul_le_mul_iff_of_pos_right commonScale_pos]

/-- Whether a point of a grid lies in the interval is asked in whole numbers. -/
theorem holds_iff : interval.holds d k = true ↔ interval.Contains (d * 10 ^ k) := by
  unfold holds Contains
  dsimp only
  split
  · rw [decide_eq_true_eq, quarter_le_grid_iff, grid_le_quarter_iff]
  · rw [decide_eq_true_eq, ← not_le, ← not_le, grid_le_quarter_iff, quarter_le_grid_iff, not_le,
      not_le]

/-- The number lies between two neighbours on the grid. -/
theorem floorOn_bounds (interval : RoundingInterval) (k : Int) :
    (interval.floorOn k : ℚ) * 10 ^ k ≤ interval.value * 2 ^ interval.unit ∧
      (interval.value : ℚ) * 2 ^ interval.unit < (interval.floorOn k + 1 : Nat) * 10 ^ k := by
  have hgrid : 0 < interval.gridScale k :=
    Nat.mul_pos (Nat.two_pow_pos _) (Nat.pow_pos (by decide))
  constructor
  · exact (grid_le_quarter_iff _ _).mp (Nat.div_mul_le_self _ _)
  · rw [← not_le, ← grid_le_quarter_iff, not_le]
    exact (Nat.div_lt_iff_lt_mul hgrid).mp (Nat.lt_succ_self _)

/-! ## The search -/

/-- Of two neighbours one is taken. -/
theorem nearer_eq (interval : RoundingInterval) (tie : Tie) (d : Nat) (k : Int) :
    interval.nearer tie d k = d ∨ interval.nearer tie d k = d + 1 := by
  unfold nearer
  dsimp only
  split
  · exact .inl rfl
  split
  · exact .inr rfl
  cases tie with
  | upward => exact .inr rfl
  | toEven =>
    show (if d % 2 = 0 then d else d + 1) = d ∨ _
    split
    · exact .inl rfl
    · exact .inr rfl

/-- What stands for the number on a grid lies in the interval. -/
theorem contains_of_onGrid (h : interval.onGrid tie k = some d) :
    interval.Contains (d * 10 ^ k) := by
  unfold onGrid at h
  dsimp only at h
  split at h
  · cases h
  rw [← holds_iff]
  split at h
  · rename_i hfloor hnext
    rw [← Option.some.inj h]
    rcases interval.nearer_eq tie (interval.floorOn k) k with hnearer | hnearer
    · rwa [hnearer]
    · rwa [hnearer]
  · rename_i hfloor hnext
    rwa [← Option.some.inj h]
  · rename_i hfloor hnext
    rwa [← Option.some.inj h]
  · cases h

/-- A grid no coarser than half the last place has a point in the interval. -/
theorem isSome_onGrid (tie : Tie) (hwide : interval.Wide)
    (hk : (10 : ℚ) ^ k ≤ 2 * 2 ^ interval.unit) :
    (interval.onGrid tie k).isSome = true := by
  obtain ⟨hfloor, hnext⟩ := interval.floorOn_bounds k
  have hunit : (0 : ℚ) < 2 ^ interval.unit := by positivity
  have hvalue : (2 : ℚ) ≤ interval.value := by exact_mod_cast hwide.value_ge
  have hlower : (interval.lower : ℚ) < interval.value := by exact_mod_cast hwide.lower_lt
  have hupper : (interval.upper : ℚ) = interval.value + 2 := by exact_mod_cast hwide.upper_eq
  have hlow : (interval.lower : ℚ) * 2 ^ interval.unit < interval.value * 2 ^ interval.unit :=
    mul_lt_mul_of_pos_right hlower hunit
  have hhigh : (interval.upper : ℚ) * 2 ^ interval.unit =
      interval.value * 2 ^ interval.unit + 2 * 2 ^ interval.unit := by
    rw [hupper, add_mul]
  have hnonzero : interval.floorOn k ≠ 0 := by
    intro hzero
    rw [hzero, zero_add, Nat.cast_one, one_mul] at hnext
    have hmul : (2 : ℚ) * 2 ^ interval.unit ≤ interval.value * 2 ^ interval.unit :=
      mul_le_mul_of_nonneg_right hvalue hunit.le
    linarith
  have hholds : interval.holds (interval.floorOn k) k = true ∨
      interval.holds (interval.floorOn k + 1) k = true := by
    rw [holds_iff, holds_iff]
    rcases hfloor.eq_or_lt with heq | hlt
    · -- the number itself is a point of the grid
      rw [heq]
      exact .inl (contains_of_lt hlow (by linarith))
    · refine .inr (contains_of_lt (hlow.trans hnext) ?_)
      rw [Nat.cast_succ, add_mul, one_mul, hhigh]
      linarith
  unfold onGrid
  dsimp only
  rw [if_neg hnonzero]
  rcases hholds with hfloor | hnext
  · rw [hfloor]
    cases interval.holds (interval.floorOn k + 1) k <;> rfl
  · rw [hnext]
    cases interval.holds (interval.floorOn k) k <;> rfl

/-- The search ends in the interval if it comes to a grid that is fine enough. -/
theorem search_contains (hwide : interval.Wide) (fuel : Nat) (k : Int)
    (h : (10 : ℚ) ^ (k - fuel) ≤ 2 * 2 ^ interval.unit) :
    interval.Contains (interval.search tie (fuel + 1) k).value := by
  induction fuel generalizing k with
  | zero =>
    obtain ⟨d, hd⟩ := Option.isSome_iff_exists.mp
      (isSome_onGrid tie hwide (by simpa using h))
    unfold search
    rw [hd]
    exact contains_of_onGrid hd
  | succ fuel ih =>
    unfold search
    split
    · rename_i d hd
      exact contains_of_onGrid hd
    · refine ih (k - 1) ?_
      have hgrid : k - 1 - (fuel : Int) = k - (fuel + 1 : Nat) := by push_cast; ring
      rwa [hgrid]

end RoundingInterval

/-! ## Powers of ten and of two -/

/-- `10 ^ 3` is just below `2 ^ 10`. -/
theorem ten_pow_le_two_pow {j i : Nat} (h : 10 * j ≤ 3 * i) : (10 : ℚ) ^ j ≤ 2 ^ i := by
  suffices hpowers : 10 ^ j ≤ 2 ^ i by exact_mod_cast hpowers
  refine (Nat.pow_le_pow_iff_left (n := 10) (by decide)).mp ?_
  calc (10 ^ j) ^ 10 = 10 ^ (10 * j) := by rw [← pow_mul, Nat.mul_comm]
    _ ≤ 10 ^ (3 * i) := Nat.pow_le_pow_right (by decide) h
    _ = (10 ^ 3) ^ i := pow_mul _ _ _
    _ ≤ (2 ^ 10) ^ i := Nat.pow_le_pow_left (by decide) i
    _ = (2 ^ i) ^ 10 := by rw [← pow_mul, ← pow_mul, Nat.mul_comm]

/-- `2 ^ 93` is just below `10 ^ 28`. -/
theorem two_pow_le_ten_pow {i j : Nat} (h : 28 * i ≤ 93 * j) : (2 : ℚ) ^ i ≤ 10 ^ j := by
  suffices hpowers : 2 ^ i ≤ 10 ^ j by exact_mod_cast hpowers
  refine (Nat.pow_le_pow_iff_left (n := 93) (by decide)).mp ?_
  calc (2 ^ i) ^ 93 = (2 ^ 93) ^ i := by rw [← pow_mul, ← pow_mul, Nat.mul_comm]
    _ ≤ (10 ^ 28) ^ i := Nat.pow_le_pow_left (by decide) i
    _ = 10 ^ (28 * i) := (pow_mul _ _ _).symm
    _ ≤ 10 ^ (93 * j) := Nat.pow_le_pow_right (by decide) h
    _ = (10 ^ j) ^ 93 := by rw [← pow_mul, Nat.mul_comm]

/-- The last grid of the search for a double is no coarser than half the last place. -/
theorem ten_zpow_start_le {places unit : Int} (hplaces : places ≤ 55) (hlow : -1076 ≤ unit)
    (hhigh : unit ≤ 969) :
    (10 : ℚ) ^ ((places + unit) * 30103 / 100000 + 1 - 20) ≤ 2 * 2 ^ unit := by
  have hhalf : (2 : ℚ) * 2 ^ unit = 2 ^ (unit + 1) := by
    rw [zpow_add_one₀ two_ne_zero, mul_comm]
  rw [hhalf]
  generalize hk : (places + unit) * 30103 / 100000 + 1 - 20 = k
  rcases le_total 0 k with hnonneg | hneg
  · -- both exponents are natural numbers
    obtain ⟨j, rfl⟩ := Int.eq_ofNat_of_zero_le hnonneg
    obtain ⟨i, hi⟩ := Int.eq_ofNat_of_zero_le (show 0 ≤ unit + 1 by omega)
    rw [hi, zpow_natCast, zpow_natCast]
    exact ten_pow_le_two_pow (by omega)
  · obtain ⟨j, hj⟩ := Int.eq_ofNat_of_zero_le (show 0 ≤ -k by omega)
    rcases le_total 0 (unit + 1) with hunit | hunit
    · calc (10 : ℚ) ^ k ≤ 1 := zpow_le_one_of_nonpos₀ (by norm_num) hneg
        _ ≤ 2 ^ (unit + 1) := one_le_zpow₀ one_le_two hunit
    · -- both exponents are negative
      obtain ⟨i, hi⟩ := Int.eq_ofNat_of_zero_le (show 0 ≤ -(unit + 1) by omega)
      have hpowers : (2 : ℚ) ^ i ≤ 10 ^ j := two_pow_le_ten_pow (by omega)
      rw [← neg_neg k, ← neg_neg (unit + 1), hj, hi, zpow_neg, zpow_neg, zpow_natCast, zpow_natCast]
      exact inv_anti₀ (by positivity) hpowers

/-! ## Doubles -/

namespace Binary64

variable {x : Binary64} {p : ℚ}

/-- The lower end is half a place below, or a quarter where the places below are half as long. -/
theorem lower_roundingInterval (hpos : 0 < double.significand x.bits.toNat) :
    4 * double.significand x.bits.toNat ≤ (double.roundingInterval x.bits.toNat).lower + 2 ∧
      (double.roundingInterval x.bits.toNat).lower < 4 * double.significand x.bits.toNat ∧
      (double.significand x.bits.toNat = 2 ^ 52 → -1074 < double.quantum x.bits.toNat →
        4 * double.significand x.bits.toNat =
          (double.roundingInterval x.bits.toNat).lower + 1) := by
  have hlower : (double.roundingInterval x.bits.toNat).lower =
      if double.narrowBelow x.bits.toNat then 4 * double.significand x.bits.toNat - 1
      else 4 * double.significand x.bits.toNat - 2 := rfl
  rw [hlower]
  refine ⟨by split <;> omega, by split <;> omega, fun hpower hmore => ?_⟩
  have hexponent : 1 < double.exponentField x.bits.toNat := by
    have hquantum : double.quantum x.bits.toNat =
      -1074 + ((double.exponentField x.bits.toNat - 1 : Nat) : Int) := rfl
    omega
  have hfraction : double.fractionField x.bits.toNat = 0 := by
    rw [BinaryLayout.significand, if_neg (by omega)] at hpower
    have hleading : Nat.pow 2 double.fractionBits = 2 ^ 52 := by decide
    omega
  have hnarrow : double.narrowBelow x.bits.toNat = true := by
    unfold BinaryLayout.narrowBelow
    rw [hfraction, decide_eq_true hexponent]
    rfl
  rw [if_pos hnarrow]
  omega

theorem wide_roundingInterval (hpos : 0 < double.significand x.bits.toNat) :
    (double.roundingInterval x.bits.toNat).Wide where
  value_ge := by
    show 2 ≤ 4 * double.significand x.bits.toNat
    omega
  lower_lt := (lower_roundingInterval hpos).2.1
  upper_eq := rfl

/-- The interval holds the numbers that round to the double. -/
theorem roundsTo_of_contains (hpos : 0 < double.significand x.bits.toNat)
    (h : (double.roundingInterval x.bits.toNat).Contains p) :
    RoundsTo p (double.significand x.bits.toNat) (double.quantum x.bits.toNat) := by
  obtain ⟨hlower, -, hnarrow⟩ := lower_roundingInterval hpos
  have hupper : ((double.roundingInterval x.bits.toNat).upper : ℚ) =
      4 * double.significand x.bits.toNat + 2 := by
    show ((4 * double.significand x.bits.toNat + 2 : Nat) : ℚ) = _
    push_cast
    rfl
  have hclosed : (double.roundingInterval x.bits.toNat).closed =
    decide (double.significand x.bits.toNat % 2 = 0) := rfl
  have hunit : (2 : ℚ) ^ (double.roundingInterval x.bits.toNat).unit =
      2 ^ double.quantum x.bits.toNat / 4 := by
    show (2 : ℚ) ^ (double.quantum x.bits.toNat - 2) = _
    rw [zpow_sub₀ two_ne_zero]
    norm_num
  unfold RoundingInterval.Contains at h
  rw [hclosed, hunit, hupper] at h
  generalize double.roundingInterval x.bits.toNat = interval at hlower hnarrow h
  generalize double.significand x.bits.toNat = m at hlower hnarrow h hpos ⊢
  generalize double.quantum x.bits.toNat = e at hnarrow h ⊢
  have hstep : (0 : ℚ) < 2 ^ e := by positivity
  have hlower' : (4 * m : ℚ) ≤ interval.lower + 2 := by exact_mod_cast hlower
  -- in whole steps, the ends included
  have hends : (interval.lower : ℚ) / 4 ≤ p / 2 ^ e ∧ p / 2 ^ e ≤ (4 * m + 2) / 4 := by
    rw [le_div_iff₀ hstep, div_le_iff₀ hstep]
    split at h
    · exact ⟨by linarith [h.1], by linarith [h.2]⟩
    · exact ⟨by linarith [h.1], by linarith [h.2]⟩
  refine ⟨by linarith [hends.1], by linarith [hends.2], fun hodd => ?_, fun hpower hmore => ?_⟩
  · rw [decide_eq_false (by omega), if_neg Bool.false_ne_true] at h
    have hinside : (interval.lower : ℚ) / 4 < p / 2 ^ e ∧ p / 2 ^ e < (4 * m + 2) / 4 := by
      rw [lt_div_iff₀ hstep, div_lt_iff₀ hstep]
      exact ⟨by linarith [h.1], by linarith [h.2]⟩
    exact ⟨by linarith [hinside.1], by linarith [hinside.2]⟩
  · have hexact : (4 * m : ℚ) = interval.lower + 1 := by exact_mod_cast hnarrow hpower hmore
    linarith [hends.1]

/-- The shortest decimal of a double rounds to it. -/
theorem shortest_roundsTo (tie : Tie) (hfull : double.exponentField x.bits.toNat ≠ 2047)
    (hzero : x.isZero = false) :
    RoundsTo (double.shortest tie x.bits.toNat).value (double.significand x.bits.toNat)
      (double.quantum x.bits.toNat) := by
  obtain ⟨hpos, -⟩ := unpacked_of_finite hfull hzero
  obtain ⟨hlt, hleast, -⟩ := x.fits
  have hlog : Nat.log2 (4 * double.significand x.bits.toNat) < 55 :=
    (Nat.log2_lt (by omega)).mpr (by omega)
  refine roundsTo_of_contains hpos ?_
  unfold BinaryLayout.shortest
  dsimp only
  rw [Decimal.value_trimZeros]
  refine RoundingInterval.search_contains (wide_roundingInterval hpos) 20 _
    (ten_zpow_start_le ?_ ?_ ?_)
  · show ((Nat.log2 (4 * double.significand x.bits.toNat) : Nat) : Int) + 1 ≤ 55
    omega
  · show -1076 ≤ double.quantum x.bits.toNat - 2
    omega
  · show double.quantum x.bits.toNat - 2 ≤ 969
    have hgreatest := quantum_le hfull
    omega

end Binary64

end SparseDatasets
