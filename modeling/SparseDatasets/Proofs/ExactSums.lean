import SparseDatasets.Proofs.Arithmetic
import SparseDatasets.Proofs.Rounding

/-!
# Sums that are not rounded

A sum of two doubles is found by shifting their significands to a common exponent, adding them, and
rounding what comes out to the places of a word. If some double stands for the sum, the places that
are dropped hold zeros, or none are dropped at all, and the sum is this double. That is so for each
step in which a number from minus one to one is made of random bits, so its value is known exactly.

- `round_exact`: rounding leaves alone what a word holds.
- `Stands.add`, `Stands.sub`: so a sum and a difference that a word holds are not rounded.
- `Binary64.exists_rational?`: the multiples of a power of two that are doubles.
- `Binary64.rational?_add_of_eq`, `Binary64.rational?_sub_of_eq`: sums that are among these.
- `Binary64.rational?_signedOfBits`: the number that is made of random bits.
-/

namespace SparseDatasets

open Float.Model (UnpackedFloat)
open Float.Model.UnpackedFloat (Sign ExtendedMantissa)
open BinaryLayout (double)

/-! ## Rounding -/

/-- Zeros that are shifted out leave nothing to round. -/
theorem shiftRight_exact (n k : Nat) :
    ExtendedMantissa.mk (n * 2 ^ k) false false >>> k = ⟨n, false, false⟩ := by
  induction k generalizing n with
  | zero =>
    rw [Nat.pow_zero, Nat.mul_one]
    rfl
  | succ k ih =>
    have hdouble : n * 2 ^ (k + 1) = n * 2 * 2 ^ k := by rw [pow_succ', mul_assoc]
    show ExtendedMantissa.shiftRightOne
      (ExtendedMantissa.mk (n * 2 ^ (k + 1)) false false >>> k) = _
    rw [hdouble, ih]
    show ExtendedMantissa.mk (n * 2 / 2) (n * 2 % 2 != 0) false = _
    rw [Nat.mul_div_cancel n Nat.two_pos, Nat.mul_mod_left]
    rfl

theorem log2_mul_two_pow {n : Nat} (hn : 0 < n) (k : Nat) : (n * 2 ^ k).log2 = n.log2 + k := by
  refine (Nat.log2_eq_iff (Nat.mul_pos hn (Nat.two_pow_pos k)).ne').mpr ⟨?_, ?_⟩
  · rw [pow_add]
    exact Nat.mul_le_mul_right _ (Nat.log2_self_le hn.ne')
  · rw [Nat.add_right_comm, pow_add]
    exact Nat.mul_lt_mul_of_pos_right Nat.lt_log2_self (Nat.two_pow_pos k)

section Exact

variable {m n : Nat} {d e : Int} {s : Sign}

/-- A significand that fits has its exponent as the target. -/
theorem Fits.target_eq (h : Fits n d) (hn : 0 < n) : target n d = d := by
  have hlog : n.log2 < 53 := (Nat.log2_lt hn.ne').mpr h.lt
  have hleast := h.least
  unfold target
  rcases h.full with hfull | hfull
  · omega
  · have hlog' : 52 ≤ n.log2 := (Nat.le_log2 hn.ne').mpr hfull
    omega

/-- So have other ways to write the number. -/
theorem target_mul_two_pow (hn : 0 < n) (k : Nat) : target (n * 2 ^ k) (d - k) = target n d := by
  unfold target
  rw [log2_mul_two_pow hn]
  push_cast
  congr 1
  ring

/-- A number is written with one significand that fits. -/
theorem Fits.unique (h : Fits m d) (h' : Fits n e) (hvalue : (m : ℚ) * 2 ^ d = n * 2 ^ e) :
    m = n ∧ d = e := by
  rcases lt_trichotomy d e with hde | rfl | hde
  · exact absurd hvalue (h.lt_of_lt h' hde).ne
  · exact ⟨by exact_mod_cast mul_right_cancel₀ (by positivity) hvalue, rfl⟩
  · exact absurd hvalue (h'.lt_of_lt h hde).ne'

theorem roundWithAccuracy_exact (hn : 0 < n) (h : Fits n d) (k : Nat) :
    UnpackedFloat.roundWithAccuracy .binary64 s (n * 2 ^ k) (d - k) .exact = .finite s n d hn := by
  have hexact : ∀ m, ExtendedMantissa.ofMantissaAndAccuracy m .exact = ⟨m, false, false⟩ :=
    fun _ => rfl
  have hrounded : (ExtendedMantissa.mk n false false).roundedMantissa = n := rfl
  have hnone : ExtendedMantissa.mk n false false >>> 0 = ⟨n, false, false⟩ := rfl
  have hshift : (d - (d - k)).toNat = k := by omega
  unfold UnpackedFloat.roundWithAccuracy UnpackedFloat.shiftToTargetExponent
    UnpackedFloat.shiftToExponent
  simp only [targetExponent_eq, target_mul_two_pow hn, h.target_eq hn, hshift, hexact,
    shiftRight_exact, hrounded, sub_add_cancel, sub_self, Int.toNat_zero, hnone, hn.ne',
    ↓reduceDIte, Nat.cast_zero, add_zero]

/-- A number in two ways, the second with the greater exponent. -/
theorem eq_mul_two_pow (hed : e ≤ d) (h : (m : ℚ) * 2 ^ e = n * 2 ^ d) :
    m = n * 2 ^ (d - e).toNat := by
  have hsplit : (2 : ℚ) ^ d = 2 ^ (d - e).toNat * 2 ^ e := by
    rw [← zpow_natCast, ← zpow_add₀ two_ne_zero]
    congr 1
    omega
  rw [hsplit, ← mul_assoc] at h
  exact_mod_cast mul_right_cancel₀ (by positivity) h

/-- **A number that a word holds is not rounded.** -/
theorem round_exact (hm : 0 < m) (hn : 0 < n) (hfits : Fits n d)
    (h : (m : ℚ) * 2 ^ e = n * 2 ^ d) :
    UnpackedFloat.round .binary64 s m e = .finite s n d hn := by
  rcases le_total e d with hed | hde
  · -- the places below the word's hold zeros
    obtain rfl := eq_mul_two_pow hed h
    obtain ⟨k, hk⟩ : ∃ k : Nat, (d - e).toNat = k := ⟨_, rfl⟩
    obtain rfl : e = d - k := by omega
    rw [hk, round_eq s, roundWithAccuracy_exact hn hfits]
    rw [target_mul_two_pow hn, hfits.target_eq hn]
    exact hed
  · -- zeros are put in until the exponent is the word's
    have hscaled : m * 2 ^ (e - d).toNat = n := (eq_mul_two_pow hde h.symm).symm
    have hexponent : e - ((e - d).toNat : Int) = d := by omega
    have htarget : target m e = d := by
      rw [← target_mul_two_pow hm (e - d).toNat, hscaled, hexponent]
      exact hfits.target_eq hn
    have hexact := roundWithAccuracy_exact (s := s) hn hfits 0
    rw [pow_zero, mul_one, Nat.cast_zero, sub_zero] at hexact
    unfold UnpackedFloat.round UnpackedFloat.decreaseExponent
    dsimp only
    rw [targetExponent_eq, htarget, Nat.shiftLeft_eq, hscaled, hexponent]
    exact hexact

end Exact

/-! ## Sums of unpacked numbers -/

/-- Taking away is adding the negative. -/
theorem unpacked_sub_eq (u v : UnpackedFloat) :
    UnpackedFloat.sub .binary64 u v = .add .binary64 u v.neg := by
  cases u with
  | notANumber => rfl
  | infinity s => cases v <;> rfl
  | zero s => cases v <;> rfl
  | finite s m d hm =>
    cases v with
    | notANumber => rfl
    | infinity t => rfl
    | zero t => rfl
    | finite t n e hn =>
      have hneg (k : Int) : (-t).apply k = -t.apply k := by
        cases t with
        | positive => rfl
        | negative => exact (Int.neg_neg k).symm
      show UnpackedFloat.normalize _ (_ - _) _ _ = .normalize _ (_ + (-t).apply _) _ _
      rw [hneg, Int.sub_eq_add_neg]

namespace Stands

variable {u v w : UnpackedFloat} {p q : ℚ}

/-- A finite number stands for its significand with its sign. -/
theorem finite_eq {s : Sign} {m : Nat} {e : Int} {hm : 0 < m} (h : Stands (.finite s m e hm) p) :
    p = (s.apply m : Int) * 2 ^ e ∧ Fits m e := by
  cases h with
  | positive _ hfits => exact ⟨rfl, hfits⟩
  | negative _ hfits =>
    refine ⟨?_, hfits⟩
    show -((m : ℚ) * 2 ^ e) = ((-(m : Int) : Int) : ℚ) * 2 ^ e
    push_cast
    ring

theorem finite {m : Nat} {e : Int} (s : Sign) (hm : 0 < m) (hfits : Fits m e) :
    Stands (.finite s m e hm) ((s.apply m : Int) * 2 ^ e) := by
  cases s with
  | positive => exact .positive hm hfits
  | negative =>
    have hvalue : ((-(m : Int) : Int) : ℚ) * 2 ^ e = -(m * 2 ^ e) := by
      push_cast
      ring
    show Stands _ (((-(m : Int) : Int) : ℚ) * 2 ^ e)
    rw [hvalue]
    exact .negative hm hfits

theorem zero_eq {s : Sign} (h : Stands (.zero s) p) : p = 0 := by
  cases h
  rfl

theorem neg (h : Stands u p) : Stands u.neg (-p) := by
  cases h with
  | zero s =>
    rw [neg_zero]
    exact .zero _
  | positive hm hfits => exact .negative hm hfits
  | negative hm hfits =>
    rw [neg_neg]
    exact .positive hm hfits

/-- What a word holds is normalized without rounding. -/
theorem normalize {m e : Int} (hw : Stands w p) (h : (m : ℚ) * 2 ^ e = p) :
    Stands (.normalize .binary64 m e .positive) p := by
  have hstep : (0 : ℚ) < 2 ^ e := by positivity
  unfold UnpackedFloat.normalize
  rcases lt_trichotomy m 0 with hsign | rfl | hsign
  · obtain ⟨k, hk⟩ := Int.eq_ofNat_of_zero_le (neg_nonneg.mpr hsign.le)
    have hmagnitude : (k : ℚ) * 2 ^ e = -p := by
      rw [← h, ← neg_mul, ← Int.cast_neg, hk, Int.cast_natCast]
    have hp : p < 0 := by
      rw [← h]
      exact mul_neg_of_neg_of_pos (by exact_mod_cast hsign) hstep
    rw [compare_lt_iff_lt.mpr hsign, hk]
    cases hw with
    | zero s => exact absurd hp (lt_irrefl 0)
    | positive hn hfits => exact absurd hp (not_lt.mpr (by positivity))
    | negative hn hfits =>
      show Stands (.round .binary64 .negative k e) _
      rw [round_exact (by omega) hn hfits (hmagnitude.trans (neg_neg _))]
      exact .negative hn hfits
  · rw [Int.cast_zero, zero_mul] at h
    rw [← h]
    exact .zero _
  · obtain ⟨k, rfl⟩ := Int.eq_ofNat_of_zero_le hsign.le
    have hp : 0 < p := by
      rw [← h]
      exact mul_pos (by exact_mod_cast hsign) hstep
    rw [compare_gt_iff_gt.mpr hsign]
    cases hw with
    | zero s => exact absurd hp (lt_irrefl 0)
    | positive hn hfits =>
      show Stands (.round .binary64 .positive k e) _
      rw [round_exact (by omega) hn hfits h]
      exact .positive hn hfits
    | negative hn hfits => exact absurd hp (not_lt.mpr (neg_nonpos.mpr (by positivity)))

/-- A significand with its sign, in smaller steps. -/
theorem apply_shiftLeft (s : Sign) (m : Nat) {c e : Int} (h : c ≤ e) :
    ((s.apply (m <<< (e - c).toNat : Nat) : Int) : ℚ) * 2 ^ c = (s.apply m : Int) * 2 ^ e := by
  have hvalue : ((m * 2 ^ (e - c).toNat : Nat) : ℚ) * 2 ^ c = m * 2 ^ e := by
    rw [Nat.cast_mul, mul_assoc, Nat.cast_pow, Nat.cast_ofNat, ← zpow_natCast,
      ← zpow_add₀ two_ne_zero]
    congr 2
    omega
  rw [Nat.shiftLeft_eq]
  cases s with
  | positive => exact hvalue
  | negative =>
    show ((-((m * 2 ^ (e - c).toNat : Nat) : Int) : Int) : ℚ) * 2 ^ c = ((-(m : Int) : Int) : ℚ) * _
    rw [Int.cast_neg, Int.cast_neg, neg_mul, neg_mul, Int.cast_natCast, Int.cast_natCast, hvalue]

/-- A sum that a word holds is not rounded. -/
theorem add (hu : Stands u p) (hv : Stands v q) (hw : Stands w (p + q)) :
    Stands (.add .binary64 u v) (p + q) := by
  cases u with
  | notANumber => cases hu
  | infinity s => cases hu
  | zero s =>
    rw [hu.zero_eq, zero_add] at hw ⊢
    cases v with
    | notANumber => cases hv
    | infinity t => cases hv
    | zero t =>
      rw [hv.zero_eq]
      cases s <;> cases t <;> exact .zero _
    | finite t n e hn => exact hv
  | finite s m d hm =>
    cases v with
    | notANumber => cases hv
    | infinity t => cases hv
    | zero t =>
      rw [hv.zero_eq, add_zero]
      exact hu
    | finite t n e hn =>
      refine normalize hw (e := min d e) ?_
      rw [Int.cast_add, add_mul, apply_shiftLeft s m (min_le_left d e),
        apply_shiftLeft t n (min_le_right d e), ← hu.finite_eq.1, ← hv.finite_eq.1]

theorem sub (hu : Stands u p) (hv : Stands v q) (hw : Stands w (p - q)) :
    Stands (.sub .binary64 u v) (p - q) := by
  rw [sub_eq_add_neg] at hw ⊢
  rw [unpacked_sub_eq]
  exact hu.add hv.neg hw

/-- Only a zero stands for zero. -/
theorem eq_zero (h : Stands u 0) : ∃ s, u = .zero s := by
  cases u with
  | notANumber => cases h
  | infinity s => cases h
  | zero s => exact ⟨s, rfl⟩
  | finite s m e hm =>
    have hvalue := h.finite_eq.1
    have hpos : (0 : ℚ) < m * 2 ^ e := mul_pos (by exact_mod_cast hm) (by positivity)
    cases s with
    | positive => exact absurd hvalue hpos.ne
    | negative =>
      change 0 = ((-(m : Int) : Int) : ℚ) * 2 ^ e at hvalue
      push_cast at hvalue
      linarith

/-- Any other number is unpacked in one way. -/
theorem eq_of_ne_zero (hu : Stands u p) (hv : Stands v p) (hp : p ≠ 0) : u = v := by
  cases hu with
  | zero s => exact absurd rfl hp
  | @positive m d hm hfits =>
    have hpos : (0 : ℚ) < m * 2 ^ d := mul_pos (by exact_mod_cast hm) (by positivity)
    generalize hq : (m : ℚ) * 2 ^ d = q at hv hpos
    cases hv with
    | zero t => exact absurd hpos (lt_irrefl 0)
    | positive hn hfits' =>
      obtain ⟨rfl, rfl⟩ := hfits.unique hfits' hq
      rfl
    | negative hn hfits' =>
      exact absurd hpos (not_lt.mpr (neg_nonpos.mpr (by positivity)))
  | @negative m d hm hfits =>
    have hneg : -((m : ℚ) * 2 ^ d) < 0 :=
      neg_neg_of_pos (mul_pos (by exact_mod_cast hm) (by positivity))
    generalize hq : -((m : ℚ) * 2 ^ d) = q at hv hneg
    cases hv with
    | zero t => exact absurd hneg (lt_irrefl 0)
    | positive hn hfits' => exact absurd hneg (not_lt.mpr (by positivity))
    | negative hn hfits' =>
      obtain ⟨rfl, rfl⟩ := hfits.unique hfits' (neg_injective hq)
      rfl

end Stands

/-! ## Sums of doubles -/

namespace Binary64

variable {x y z : Binary64} {p q : ℚ}

theorem rational?_of_stands (h : Stands x.unpacked q) : x.rational? = some q := by
  cases hx : x.rational? with
  | some p => rw [(stands hx).unique h]
  | none =>
    rcases isNaN_or_isInfinite hx with hnan | hinfinite
    · rw [unpacked_of_isNaN hnan] at h
      cases h
    · rw [unpacked_of_isInfinite hinfinite] at h
      cases h

/-- A number that some double stands for is kept when a word is made of it. -/
theorem rational?_packed {u : UnpackedFloat} (hu : Stands u q) (hz : z.rational? = some q) :
    (packed u).rational? = some q := by
  refine rational?_of_stands ?_
  rw [unpacked_packed]
  by_cases hq : q = 0
  · obtain ⟨s, rfl⟩ := (hq ▸ hu).eq_zero
    cases s <;> exact hu
  · rw [hu.eq_of_ne_zero (stands hz) hq, repacked_unpacked]
    exact stands hz

/-- **A sum that some double stands for is not rounded.** -/
theorem rational?_add (hx : x.rational? = some p) (hy : y.rational? = some q)
    (hz : z.rational? = some (p + q)) : (x + y).rational? = some (p + q) := by
  rw [add_eq]
  exact rational?_packed ((stands hx).add (stands hy) (stands hz)) hz

theorem rational?_sub (hx : x.rational? = some p) (hy : y.rational? = some q)
    (hz : z.rational? = some (p - q)) : (x - y).rational? = some (p - q) := by
  rw [sub_eq]
  exact rational?_packed ((stands hx).sub (stands hy) (stands hz)) hz

/-! ## Numbers that some double stands for -/

/-- A significand that fits makes a double with either sign, unless the exponent is too large. -/
theorem exists_of_fits (s : Sign) {m : Nat} {e : Int} (hm : 0 < m) (h : Fits m e) (he : e ≤ 971) :
    ∃ x : Binary64, x.rational? = some (((s.apply m : Int) : ℚ) * 2 ^ e) := by
  have hleast := h.least
  obtain ⟨exponent, hfull, hnormal, hsmall⟩ : ∃ exponent : BitVec 11, exponent.toNat ≠ 2047 ∧
      (m.log2 = 52 → exponent.toNat = (e + 1075).toNat) ∧ (m.log2 ≠ 52 → exponent.toNat = 0) := by
    by_cases hplaces : m.log2 = 52
    · have hexponent : (BitVec.ofNat 11 (e + 1075).toNat).toNat = (e + 1075).toNat := by
        rw [BitVec.toNat_ofNat]
        exact Nat.mod_eq_of_lt (by omega)
      exact ⟨.ofNat 11 (e + 1075).toNat, by omega, fun _ => hexponent, fun h => absurd hplaces h⟩
    · exact ⟨0, by decide, fun h => absurd h hplaces, fun _ => rfl⟩
  obtain ⟨hsignificand, hquantum, hzero⟩ := parts_ofFields (s := s) hm h hnormal hsmall
  obtain ⟨hpos, hunpacked⟩ := unpacked_of_finite (by rwa [exponentField_ofFields]) hzero
  obtain ⟨_, hsame⟩ := finite_congr hpos sign_ofFields hsignificand hquantum
  have hparts : (ofFields s exponent (.ofNat 52 m)).unpacked = .finite s m e hm :=
    hunpacked.trans hsame
  refine ⟨ofFields s exponent (.ofNat 52 m), rational?_of_stands ?_⟩
  rw [hparts]
  exact .finite s hm h

/-- Whole numbers of fifty-three digits are doubles, and so are their multiples by the powers of
two in range. -/
theorem exists_rational? {n d : Int} (hn : n.natAbs < 2 ^ 53) (hlow : -1074 ≤ d) (hhigh : d ≤ 971) :
    ∃ x : Binary64, x.rational? = some ((n : ℚ) * 2 ^ d) := by
  rcases Nat.eq_zero_or_pos n.natAbs with hzero | hpos
  · rw [Int.natAbs_eq_zero.mp hzero, Int.cast_zero, zero_mul]
    exact ⟨0, rational?_zero⟩
  · -- the number is rounded to its target, and no place is dropped
    generalize hc : target n.natAbs d = c
    have hlog : n.natAbs.log2 ≤ 52 := Nat.le_of_lt_succ ((Nat.log2_lt hpos.ne').mpr hn)
    have hplaces : c = -1074 ∨ (d - c).toNat = 52 - n.natAbs.log2 := by
      unfold target at hc
      omega
    have hc' : c ≤ d ∧ -1074 ≤ c ∧ (d - c).toNat ≤ 52 - n.natAbs.log2 := by
      unfold target at hc
      omega
    obtain ⟨hfull, hlt⟩ := scaled_bounds hpos hn
    have hfits : Fits (n.natAbs <<< (d - c).toNat) c := by
      rw [Nat.shiftLeft_eq]
      refine ⟨lt_of_le_of_lt ?_ hlt, hc'.2.1, hplaces.imp_right fun h => ?_⟩
      · exact Nat.mul_le_mul_left _ (Nat.pow_le_pow_right two_pos hc'.2.2)
      · rw [h]
        exact hfull
    have hpos' : 0 < n.natAbs <<< (d - c).toNat := by
      rw [Nat.shiftLeft_eq]
      exact Nat.mul_pos hpos (Nat.two_pow_pos _)
    obtain ⟨s, hs⟩ : ∃ s : Sign, s.apply n.natAbs = n := by
      rcases Int.natAbs_eq n with h | h
      · exact ⟨.positive, h.symm⟩
      · exact ⟨.negative, h.symm⟩
    obtain ⟨x, hx⟩ := exists_of_fits s hpos' hfits (by omega)
    rw [Stands.apply_shiftLeft s n.natAbs hc'.1, hs] at hx
    exact ⟨x, hx⟩

variable {n d : Int}

/-- A sum of so few digits is not rounded. -/
theorem rational?_add_of_eq (hx : x.rational? = some p) (hy : y.rational? = some q)
    (h : p + q = (n : ℚ) * 2 ^ d) (hn : n.natAbs < 2 ^ 53) (hlow : -1074 ≤ d) (hhigh : d ≤ 971) :
    (x + y).rational? = some ((n : ℚ) * 2 ^ d) := by
  obtain ⟨z, hz⟩ := exists_rational? hn hlow hhigh
  rw [← h] at hz ⊢
  exact rational?_add hx hy hz

theorem rational?_sub_of_eq (hx : x.rational? = some p) (hy : y.rational? = some q)
    (h : p - q = (n : ℚ) * 2 ^ d) (hn : n.natAbs < 2 ^ 53) (hlow : -1074 ≤ d) (hhigh : d ≤ 971) :
    (x - y).rational? = some ((n : ℚ) * 2 ^ d) := by
  obtain ⟨z, hz⟩ := exists_rational? hn hlow hhigh
  rw [← h] at hz ⊢
  exact rational?_sub hx hy hz

/-! ## Numbers made of random bits -/

theorem fraction_lt (bits : UInt64) : bits.toNat >>> 12 < 2 ^ 52 := by
  have hbits := bits.toNat_lt
  rw [Nat.shiftRight_eq_div_pow]
  omega

/-- Fifty-two bits as the fraction of a number from one to two. -/
theorem rational?_fraction (bits : UInt64) :
    (⟨bits >>> 12 ||| (1 : Binary64).bits⟩ : Binary64).rational? =
      some (((2 ^ 52 + bits.toNat >>> 12 : Nat) : ℚ) * 2 ^ (-52 : Int)) := by
  have hlt := fraction_lt bits
  have hword : (bits >>> 12 ||| (1 : Binary64).bits).toNat = 1023 <<< 52 + bits.toNat >>> 12 := by
    rw [UInt64.toNat_or, UInt64.toNat_shiftRight, Nat.or_comm,
      Nat.shiftLeft_add_eq_or_of_lt hlt]
    rfl
  generalize bits.toNat >>> 12 = fraction at hlt hword ⊢
  generalize bits >>> 12 ||| (1 : Binary64).bits = word at hword ⊢
  have hexponent : double.exponentField word.toNat = 1023 := by
    show word.toNat % 9223372036854775808 / 4503599627370496 = 1023
    omega
  have hfraction : double.fractionField word.toNat = fraction := by
    show word.toNat % 4503599627370496 = fraction
    omega
  have hnegative : (⟨word⟩ : Binary64).negative = false := by
    show decide (9223372036854775808 ≤ word.toNat) = false
    rw [decide_eq_false_iff_not]
    omega
  have hquantum : double.quantum word.toNat = -52 := by
    rw [BinaryLayout.quantum, hexponent]
    rfl
  have hsignificand : double.significand word.toNat = 2 ^ 52 + fraction := by
    rw [BinaryLayout.significand, hexponent, hfraction]
    rfl
  refine rational?_eq_some_iff.mpr ⟨ne_of_eq_of_ne hexponent (by decide), ?_⟩
  rw [rational, hnegative, hsignificand, hquantum, if_neg Bool.false_ne_true, one_mul]

/-- No step on the way to a number made of random bits is rounded. -/
theorem rational?_signedOfBits (bits : UInt64) :
    (Scalar.signedOfBits bits : Binary64).rational? =
      some (((((bits.toNat >>> 12 : Nat) : Int) - 2 ^ 51 : Int) : ℚ) * 2 ^ (-51 : Int)) := by
  have hlt := fraction_lt bits
  have hfromOne := rational?_fraction bits
  show (⟨bits >>> 12 ||| (1 : Binary64).bits⟩ - 1 +
    (⟨bits >>> 12 ||| (1 : Binary64).bits⟩ - 1) - 1 : Binary64).rational? = _
  generalize (⟨bits >>> 12 ||| (1 : Binary64).bits⟩ : Binary64) = fromOne at hfromOne ⊢
  generalize bits.toNat >>> 12 = fraction at hlt hfromOne ⊢
  have hfromZero : (fromOne - 1).rational? = some (((fraction : Int) : ℚ) * 2 ^ (-52 : Int)) := by
    refine rational?_sub_of_eq hfromOne rational?_one ?_ (by omega) (by decide) (by decide)
    push_cast
    ring
  have hdouble : (fromOne - 1 + (fromOne - 1)).rational? =
      some (((fraction : Int) : ℚ) * 2 ^ (-51 : Int)) := by
    refine rational?_add_of_eq hfromZero hfromZero ?_ (by omega) (by decide) (by decide)
    norm_num
    ring
  refine rational?_sub_of_eq hdouble rational?_one ?_ (by omega) (by decide) (by decide)
  push_cast
  ring

/-- A number made of random bits is one from minus one to one. -/
theorem exists_rational?_signedOfBits (bits : UInt64) :
    ∃ q, (Scalar.signedOfBits bits : Binary64).rational? = some q ∧ |q| ≤ 1 := by
  refine ⟨_, rational?_signedOfBits bits, ?_⟩
  have hlow : (0 : ℚ) ≤ (bits.toNat >>> 12 : Nat) := Nat.cast_nonneg _
  have hhigh : ((bits.toNat >>> 12 : Nat) : ℚ) < 2 ^ 52 := by exact_mod_cast fraction_lt bits
  rw [abs_le, Int.cast_sub, Int.cast_natCast]
  generalize ((bits.toNat >>> 12 : Nat) : ℚ) = fraction at hlow hhigh ⊢
  norm_num at hhigh ⊢
  constructor <;> linarith

end Binary64

end SparseDatasets
