import Mathlib
import SparseDatasets.Proofs.Element

/-!
# The numbers that doubles stand for

The arithmetic of doubles takes a word apart into a sign, a significand and an
exponent, and so does the layout of the word. Both take the same parts, which
gives every finite double a rational number, and the order of the doubles is that
of these numbers.

- `Binary64.unpacked`: a double as the arithmetic takes it.
- `Binary64.unpacked_of_finite`: its parts, read off the word.
- `Binary64.rational?`: the number that a finite double stands for.
- `Fits`: the significands and exponents of the words.
- `Stands.le_iff`: the order of unpacked numbers is that of the rationals.
- `Binary64.le_iff`: so is the order of doubles.
-/

namespace SparseDatasets

open Float.Model (UnpackedFloat)
open Float.Model.UnpackedFloat (Sign unpackSign unpackExponent unpackMantissa)
open BinaryLayout (double)

/-! ## The parts of a word -/

namespace Binary64

/-- The number as the arithmetic takes it. -/
def unpacked (x : Binary64) : UnpackedFloat := .unpack .binary64 x.bits.toBitVec

def sign (x : Binary64) : Sign := if x.negative then .negative else .positive

variable {x : Binary64}

theorem fractionField_lt (x : Binary64) : double.fractionField x.bits.toNat < 4503599627370496 :=
  Nat.mod_lt _ (by decide)

theorem isNaN_iff : x.isNaN = true ↔
    double.exponentField x.bits.toNat = 2047 ∧ double.fractionField x.bits.toNat ≠ 0 := by
  show decide (9218868437227405312 < x.bits.toNat % 9223372036854775808) = true ↔
    x.bits.toNat % 9223372036854775808 / 4503599627370496 = 2047 ∧
      x.bits.toNat % 4503599627370496 ≠ 0
  rw [decide_eq_true_eq]
  omega

theorem isInfinite_iff : x.isInfinite = true ↔
    double.exponentField x.bits.toNat = 2047 ∧ double.fractionField x.bits.toNat = 0 := by
  show (x.bits.toNat % 9223372036854775808 == 9218868437227405312) = true ↔
    x.bits.toNat % 9223372036854775808 / 4503599627370496 = 2047 ∧
      x.bits.toNat % 4503599627370496 = 0
  rw [beq_iff_eq]
  omega

/-- The full exponent field is that of the NaNs and of the infinities. -/
theorem exponentField_eq_full_iff :
    double.exponentField x.bits.toNat = 2047 ↔ (x.isNaN || x.isInfinite) = true := by
  rw [Bool.or_eq_true, isNaN_iff, isInfinite_iff]
  constructor
  · intro hfull
    by_cases hfraction : double.fractionField x.bits.toNat = 0
    · exact .inr ⟨hfull, hfraction⟩
    · exact .inl ⟨hfull, hfraction⟩
  · exact fun h => h.elim And.left And.left

theorem isZero_iff : x.isZero = true ↔
    double.exponentField x.bits.toNat = 0 ∧ double.fractionField x.bits.toNat = 0 := by
  show (x.bits.toNat % 9223372036854775808 == 0) = true ↔
    x.bits.toNat % 9223372036854775808 / 4503599627370496 = 0 ∧
      x.bits.toNat % 4503599627370496 = 0
  rw [beq_iff_eq]
  omega

theorem toNat_unpackExponent (x : Binary64) :
    (@unpackExponent .binary64 x.bits.toBitVec).toNat = double.exponentField x.bits.toNat := by
  rw [Float.Model.UnpackedFloat.unpackExponent_def, BitVec.extractLsb'_toNat,
    Nat.shiftRight_eq_div_pow]
  show x.bits.toNat / 4503599627370496 % 2048 =
    x.bits.toNat % 9223372036854775808 / 4503599627370496
  omega

theorem toNat_unpackMantissa (x : Binary64) :
    (@unpackMantissa .binary64 x.bits.toBitVec).toNat = double.fractionField x.bits.toNat := by
  rw [Float.Model.UnpackedFloat.unpackMantissa_def, BitVec.extractLsb'_toNat, Nat.shiftRight_zero]
  rfl

theorem ofBitVec_unpackSign (x : Binary64) :
    Sign.ofBitVec (@unpackSign .binary64 x.bits.toBitVec) = x.sign := by
  have hword : x.bits.toNat < 2 ^ 64 := x.bits.toNat_lt
  have hbit : @unpackSign .binary64 x.bits.toBitVec = 0#1 ↔ x.negative = false := by
    rw [BitVec.toNat_eq, Float.Model.UnpackedFloat.unpackSign_def, BitVec.extractLsb'_toNat,
      Nat.shiftRight_eq_div_pow]
    show x.bits.toNat / 9223372036854775808 % 2 = 0 ↔
      decide (9223372036854775808 ≤ x.bits.toNat) = false
    rw [decide_eq_false_iff_not]
    omega
  unfold Sign.ofBitVec sign
  cases hnegative : x.negative with
  | false => rw [if_pos (hbit.mpr hnegative), if_neg Bool.false_ne_true]
  | true => rw [if_neg (hbit.not.mpr (by simp [hnegative])), if_pos rfl]

theorem unpackExponent_eq_iff {n : Nat} (hn : n < 2048) :
    @unpackExponent .binary64 x.bits.toBitVec = BitVec.ofNat 11 n ↔
      double.exponentField x.bits.toNat = n := by
  rw [BitVec.toNat_eq, toNat_unpackExponent]
  show double.exponentField x.bits.toNat = n % 2048 ↔ _
  rw [Nat.mod_eq_of_lt hn]

theorem unpackExponent_eq_full_iff :
    @unpackExponent .binary64 x.bits.toBitVec = -1#11 ↔
      double.exponentField x.bits.toNat = 2047 :=
  unpackExponent_eq_iff (by decide)

theorem unpackMantissa_eq_zero_iff :
    @unpackMantissa .binary64 x.bits.toBitVec = 0#52 ↔ double.fractionField x.bits.toNat = 0 := by
  rw [BitVec.toNat_eq, toNat_unpackMantissa]
  rfl

/-! ## The classes of doubles -/

theorem unpacked_of_isNaN (h : x.isNaN = true) : x.unpacked = .notANumber := by
  obtain ⟨hexponent, hfraction⟩ := isNaN_iff.mp h
  unfold unpacked UnpackedFloat.unpack
  dsimp only
  rw [if_pos (unpackExponent_eq_full_iff.mpr hexponent),
    if_neg (unpackMantissa_eq_zero_iff.not.mpr hfraction)]

theorem unpacked_of_isInfinite (h : x.isInfinite = true) : x.unpacked = .infinity x.sign := by
  obtain ⟨hexponent, hfraction⟩ := isInfinite_iff.mp h
  unfold unpacked UnpackedFloat.unpack
  dsimp only
  rw [if_pos (unpackExponent_eq_full_iff.mpr hexponent),
    if_pos (unpackMantissa_eq_zero_iff.mpr hfraction), ofBitVec_unpackSign]

theorem unpacked_of_isZero (h : x.isZero = true) : x.unpacked = .zero x.sign := by
  obtain ⟨hexponent, hfraction⟩ := isZero_iff.mp h
  have hfull : double.exponentField x.bits.toNat ≠ 2047 := by omega
  unfold unpacked UnpackedFloat.unpack
  dsimp only
  rw [if_neg (unpackExponent_eq_full_iff.not.mpr hfull),
    if_pos ((unpackExponent_eq_iff (by decide)).mpr hexponent),
    dif_pos (unpackMantissa_eq_zero_iff.mpr hfraction), ofBitVec_unpackSign]

theorem finite_congr {s t : Sign} {m n : Nat} {d e : Int} (hm : 0 < m) (hst : s = t) (hmn : m = n)
    (hde : d = e) : ∃ hn, UnpackedFloat.finite s m d hm = .finite t n e hn := by
  subst hst hmn hde
  exact ⟨hm, rfl⟩

/-- A finite double that is not zero has the significand and the quantum of its word. -/
theorem unpacked_of_finite (hfull : double.exponentField x.bits.toNat ≠ 2047)
    (hzero : x.isZero = false) :
    ∃ hpos, x.unpacked =
      .finite x.sign (double.significand x.bits.toNat) (double.quantum x.bits.toNat) hpos := by
  have hquantum : double.quantum x.bits.toNat =
    -1074 + ((double.exponentField x.bits.toNat - 1 : Nat) : Int) := rfl
  unfold unpacked UnpackedFloat.unpack
  dsimp only
  rw [if_neg (unpackExponent_eq_full_iff.not.mpr hfull)]
  by_cases hsmall : double.exponentField x.bits.toNat = 0
  · have hfraction : double.fractionField x.bits.toNat ≠ 0 := by
      intro hfraction
      rw [isZero_iff.mpr ⟨hsmall, hfraction⟩] at hzero
      cases hzero
    rw [if_pos ((unpackExponent_eq_iff (by decide)).mpr hsmall),
      dif_neg (unpackMantissa_eq_zero_iff.not.mpr hfraction)]
    refine finite_congr _ (ofBitVec_unpackSign x) ?_ ?_
    · rw [toNat_unpackMantissa, BinaryLayout.significand, if_pos hsmall]
    · rw [toNat_unpackExponent, hquantum]
      show ((double.exponentField x.bits.toNat : Nat) : Int) - (1023 + 52) + 1 = _
      omega
  · rw [if_neg ((unpackExponent_eq_iff (by decide)).not.mpr hsmall)]
    refine finite_congr _ (ofBitVec_unpackSign x) ?_ ?_
    · rw [BitVec.toNat_append, toNat_unpackMantissa, BinaryLayout.significand, if_neg hsmall]
      show 1 <<< 52 ||| double.fractionField x.bits.toNat = _
      rw [← Nat.shiftLeft_add_eq_or_of_lt (fractionField_lt x)]
      rfl
    · rw [toNat_unpackExponent, hquantum]
      show ((double.exponentField x.bits.toNat : Nat) : Int) - (1023 + 52) = _
      omega

end Binary64

/-! ## Significands and exponents -/

/-- A significand and an exponent that some word holds, if the exponent is not too large: as many
digits as the significand has places, unless the exponent is the least. -/
structure Fits (m : Nat) (e : Int) : Prop where
  lt : m < 2 ^ 53
  least : -1074 ≤ e
  full : e = -1074 ∨ 2 ^ 52 ≤ m

namespace Fits

variable {m n : Nat} {d e : Int}

/-- Of two numbers the one with the greater exponent is greater. -/
theorem lt_of_lt (h : Fits m d) (h' : Fits n e) (hde : d < e) :
    (m : ℚ) * 2 ^ d < n * 2 ^ e := by
  have hn : 2 ^ 52 ≤ n := h'.full.resolve_left (by have := h.least; omega)
  have hm : (m : ℚ) < 2 ^ 53 := by exact_mod_cast h.lt
  calc (m : ℚ) * 2 ^ d < 2 ^ 53 * 2 ^ d := by
        exact mul_lt_mul_of_pos_right hm (by positivity)
    _ = 2 ^ 52 * 2 ^ (d + 1) := by
        rw [zpow_add_one₀ (by norm_num)]
        ring
    _ ≤ 2 ^ 52 * 2 ^ e := by
        refine mul_le_mul_of_nonneg_left ?_ (by positivity)
        exact zpow_le_zpow_right₀ (by norm_num) (by omega)
    _ ≤ n * 2 ^ e := by
        refine mul_le_mul_of_nonneg_right ?_ (by positivity)
        exact_mod_cast hn

/-- Comparing the exponents first and the significands next compares the numbers. -/
theorem compare_isLE_iff (h : Fits m d) (h' : Fits n e) :
    ((compare d e).then (compare m n)).isLE = true ↔ (m : ℚ) * 2 ^ d ≤ n * 2 ^ e := by
  rcases lt_trichotomy d e with hde | rfl | hde
  · rw [compare_lt_iff_lt.mpr hde]
    exact iff_of_true rfl (h.lt_of_lt h' hde).le
  · rw [compare_eq_iff_eq.mpr rfl, Ordering.eq_then, Nat.isLE_compare,
      mul_le_mul_iff_of_pos_right (by positivity), Nat.cast_le]
  · rw [compare_gt_iff_gt.mpr hde]
    exact iff_of_false Bool.false_ne_true (h'.lt_of_lt h hde).not_ge

end Fits

/-- An unpacked number and the rational number that it stands for. -/
inductive Stands : UnpackedFloat → ℚ → Prop
  | zero (s : Sign) : Stands (.zero s) 0
  | positive {m : Nat} {e : Int} (hm : 0 < m) : Fits m e →
    Stands (.finite .positive m e hm) (m * 2 ^ e)
  | negative {m : Nat} {e : Int} (hm : 0 < m) : Fits m e →
    Stands (.finite .negative m e hm) (-(m * 2 ^ e))

theorem Stands.unique {u : UnpackedFloat} {p q : ℚ} (hp : Stands u p) (hq : Stands u q) :
    p = q := by
  cases hp <;> cases hq <;> rfl

/-- The order of unpacked numbers is that of the rationals. -/
theorem Stands.le_iff {u v : UnpackedFloat} {p q : ℚ} (hu : Stands u p) (hv : Stands v q) :
    u.le v = true ↔ p ≤ q := by
  have hpos : ∀ (m : Nat) (e : Int), 0 < m → (0 : ℚ) < m * 2 ^ e := fun m e hm =>
    mul_pos (by exact_mod_cast hm) (by positivity)
  cases hu with
  | zero s =>
    cases hv with
    | zero t => exact iff_of_true rfl le_rfl
    | positive hn _ => exact iff_of_true rfl (hpos _ _ hn).le
    | @negative n e hn _ => exact iff_of_false Bool.false_ne_true (by linarith [hpos n e hn])
  | @positive m d hm hfits =>
    cases hv with
    | zero t => exact iff_of_false Bool.false_ne_true (hpos m d hm).not_ge
    | positive hn hfits' => exact hfits.compare_isLE_iff hfits'
    | @negative n e hn _ =>
      exact iff_of_false Bool.false_ne_true (by linarith [hpos m d hm, hpos n e hn])
  | @negative m d hm hfits =>
    cases hv with
    | zero t => exact iff_of_true rfl (by linarith [hpos m d hm])
    | @positive n e hn _ => exact iff_of_true rfl (by linarith [hpos m d hm, hpos n e hn])
    | @negative n e hn hfits' =>
      rw [neg_le_neg_iff, ← hfits'.compare_isLE_iff hfits, ← Int.compare_swap d e,
        ← Nat.compare_swap m n, ← Ordering.swap_then]
      rfl

/-! ## The order of doubles -/

/-- What is left of an unpacked number once a word holds it. -/
def repacked (u : UnpackedFloat) : UnpackedFloat :=
  .unpack .binary64 (UnpackedFloat.pack .binary64 u)

namespace Binary64

theorem repacked_unpacked (x : Binary64) : repacked x.unpacked = x.unpacked := by
  unfold repacked unpacked
  rw [Float.Model.UnpackedFloat.pack_unpack]
  by_cases hnan : @Float.Model.UnpackedFloat.isNaNBits .binary64 x.bits.toBitVec = true
  · -- the NaNs lose their payloads
    obtain ⟨hexponent, hmantissa⟩ := of_decide_eq_true hnan
    rw [if_pos hnan, Float.Model.UnpackedFloat.unpack_packedNaN, UnpackedFloat.unpack]
    dsimp only
    rw [if_pos hexponent, if_neg hmantissa]
  · rw [if_neg hnan]

theorem unpack_toFloat (x : Binary64) : x.toFloat.toModel.unpack = x.unpacked :=
  repacked_unpacked x

theorem le_eq (x y : Binary64) : le x y = x.unpacked.le y.unpacked := by
  rw [← unpack_toFloat, ← unpack_toFloat, Bool.eq_iff_iff, le, decide_eq_true_eq]
  exact decide_eq_true_iff

/-- The number that a finite double stands for. -/
def rational (x : Binary64) : ℚ :=
  (if x.negative then -1 else 1) *
    (double.significand x.bits.toNat * 2 ^ double.quantum x.bits.toNat)

/-- The number that a double stands for, if it is finite. -/
def rational? (x : Binary64) : Option ℚ :=
  if x.isNaN || x.isInfinite then none else some x.rational

variable {x y : Binary64} {p q : ℚ}

theorem rational?_eq_some_iff : x.rational? = some q ↔
    double.exponentField x.bits.toNat ≠ 2047 ∧ x.rational = q := by
  unfold rational?
  rw [ne_eq, exponentField_eq_full_iff]
  by_cases hclass : (x.isNaN || x.isInfinite) = true
  · simp [hclass]
  · simp [hclass]

theorem fits (x : Binary64) :
    Fits (double.significand x.bits.toNat) (double.quantum x.bits.toNat) := by
  have hfraction := fractionField_lt x
  have hquantum : double.quantum x.bits.toNat =
    -1074 + ((double.exponentField x.bits.toNat - 1 : Nat) : Int) := rfl
  have hsignificand : double.significand x.bits.toNat =
      if double.exponentField x.bits.toNat = 0 then double.fractionField x.bits.toNat
      else 4503599627370496 + double.fractionField x.bits.toNat := rfl
  rw [hsignificand, hquantum]
  by_cases hsmall : double.exponentField x.bits.toNat = 0
  · rw [if_pos hsmall]
    exact ⟨by omega, by omega, .inl (by omega)⟩
  · rw [if_neg hsmall]
    exact ⟨by omega, by omega, .inr (by omega)⟩

/-- A finite double stands for its rational number. -/
theorem stands (h : x.rational? = some q) : Stands x.unpacked q := by
  obtain ⟨hfull, rfl⟩ := rational?_eq_some_iff.mp h
  cases hzero : x.isZero with
  | true =>
    have hnone : x.rational = 0 := by
      obtain ⟨hexponent, hfraction⟩ := isZero_iff.mp hzero
      rw [rational, BinaryLayout.significand, if_pos hexponent, hfraction]
      simp
    rw [unpacked_of_isZero hzero, hnone]
    exact .zero _
  | false =>
    obtain ⟨hpos, hunpacked⟩ := unpacked_of_finite hfull hzero
    rw [hunpacked, rational, sign]
    cases x.negative with
    | false =>
      simp only [Bool.false_eq_true, ↓reduceIte, one_mul]
      exact .positive hpos x.fits
    | true =>
      simp only [↓reduceIte, neg_one_mul]
      exact .negative hpos x.fits

/-- **The order of finite doubles is that of the numbers that they stand for.** -/
theorem le_iff (hx : x.rational? = some p) (hy : y.rational? = some q) :
    le x y = true ↔ p ≤ q := by
  rw [le_eq]
  exact (stands hx).le_iff (stands hy)

theorem rational_zero : rational 0 = 0 := by
  rw [rational, show double.significand (0 : Binary64).bits.toNat = 0 from rfl]
  simp

theorem rational?_zero : rational? 0 = some 0 :=
  rational?_eq_some_iff.mpr ⟨by decide, rational_zero⟩

theorem rational?_one : rational? 1 = some 1 := by
  refine rational?_eq_some_iff.mpr ⟨by decide, ?_⟩
  rw [rational, show double.significand (1 : Binary64).bits.toNat = 2 ^ 52 by decide,
    show double.quantum (1 : Binary64).bits.toNat = -52 by decide,
    show (1 : Binary64).negative = false by decide]
  norm_num

theorem isNaN_or_isInfinite (h : x.rational? = none) :
    x.isNaN = true ∨ x.isInfinite = true := by
  unfold rational? at h
  split at h
  · rename_i hclass
    exact Bool.or_eq_true_iff.mp hclass
  · cases h

/-- A number from zero to one is finite. -/
theorem between_iff : (le 0 x && le x 1) = true ↔ ∃ q, x.rational? = some q ∧ 0 ≤ q ∧ q ≤ 1 := by
  cases hx : x.rational? with
  | some q =>
    rw [Bool.and_eq_true, le_iff rational?_zero hx, le_iff hx rational?_one]
    simp
  | none =>
    refine iff_of_false ?_ (by simp)
    have hzero : (0 : Binary64).unpacked = .zero .positive := rfl
    have hone : (1 : Binary64).unpacked = .finite .positive (2 ^ 52) (-52) (by decide) := rfl
    rw [Bool.and_eq_true, le_eq, le_eq, hzero, hone]
    rcases isNaN_or_isInfinite hx with hnan | hinfinite
    · rw [unpacked_of_isNaN hnan]
      exact fun h => Bool.false_ne_true h.1
    · rw [unpacked_of_isInfinite hinfinite]
      cases x.sign with
      | positive => exact fun h => Bool.false_ne_true h.2
      | negative => exact fun h => Bool.false_ne_true h.1

end Binary64

end SparseDatasets
