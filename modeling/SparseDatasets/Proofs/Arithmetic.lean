import SparseDatasets.Proofs.Doubles
import SparseDatasets.Random.Scalar

/-!
# Sums of squares of doubles

A square of a double that is a number is at least zero, and adding what is at least
zero never takes a sum below a bound that it has reached. Rounding is what has to be
watched in the second: the bound is a number that some word holds, and of the words
around a larger number the nearest is not below the bound.

- `round_of_le`: rounding does not pass a number that a word holds.
- `HasSign`, `Binary64.packed_of_hasSign`: numbers by their sign, and what a word makes of them.
- `AtLeast`: infinity, or a number that is not below a bound.
- `Binary64.le_iff_atLeast`: the order of doubles by bounds.
- `Binary64.atLeast_mul_self`, `Binary64.atLeast_add`: squares and sums.
-/

namespace SparseDatasets

open Float.Model (UnpackedFloat)
open Float.Model.UnpackedFloat (Sign ExtendedMantissa unpackSign packComponents)
open BinaryLayout (double)

/-! ## Rounding -/

theorem shiftRight_mantissa (m : ExtendedMantissa) (k : Nat) :
    (m >>> k).mantissa = m.mantissa / 2 ^ k := by
  induction k with
  | zero => exact (Nat.div_one _).symm
  | succ k ih =>
    show (m >>> k).mantissa / 2 = _
    rw [ih, Nat.div_div_eq_div_mul, Nat.pow_succ]

/-- Rounding goes up by one at most. -/
theorem roundedMantissa_bounds (m : ExtendedMantissa) :
    m.mantissa ≤ m.roundedMantissa ∧ m.roundedMantissa ≤ m.mantissa + 1 := by
  obtain ⟨digits, half, rest⟩ := m
  cases half with
  | false => cases rest <;> exact ⟨Nat.le_refl _, Nat.le_succ _⟩
  | true =>
    cases rest with
    | false =>
      show digits ≤ digits + digits % 2 ∧ digits + digits % 2 ≤ digits + 1
      omega
    | true => exact ⟨Nat.le_succ _, Nat.le_refl _⟩

/-- The exponent that a number is rounded to. -/
def target (m : Nat) (e : Int) : Int := max ((m.log2 : Int) + e - 52) (-1074)

theorem targetExponent_eq (m : Nat) (e : Int) :
    Float.Model.Format.binary64.targetExponent (Float.Model.totalExponent m e) = target m e := by
  show max ((m.log2 : Int) + 1 + e - 53) (-1074) = max _ _
  congr 1
  omega

/-- Rounding drops the places below the target, and once more if it carries into another place. -/
theorem roundWithAccuracy_eq (s : Sign) {m k : Nat} {e : Int} (hk : target m e = e + k) :
    ∃ r, m / 2 ^ k ≤ r ∧ r ≤ m / 2 ^ k + 1 ∧
      ∀ l : Nat, (target r (e + k) - (e + k)).toNat = l → ∀ hpos : 0 < r / 2 ^ l,
        UnpackedFloat.roundWithAccuracy .binary64 s m e .exact =
          .finite s (r / 2 ^ l) (e + k + l) hpos := by
  obtain ⟨hlow, hhigh⟩ := roundedMantissa_bounds (ExtendedMantissa.mk m false false >>> k)
  rw [shiftRight_mantissa] at hlow hhigh
  refine ⟨_, hlow, hhigh, fun l hl hpos => ?_⟩
  have hshift : (target m e - e).toNat = k := by omega
  have hexact : ∀ m, ExtendedMantissa.ofMantissaAndAccuracy m .exact = ⟨m, false, false⟩ :=
    fun _ => rfl
  unfold UnpackedFloat.roundWithAccuracy UnpackedFloat.shiftToTargetExponent
    UnpackedFloat.shiftToExponent
  simp only [targetExponent_eq, hshift, hexact, hl, shiftRight_mantissa, hpos.ne', ↓reduceDIte]

/-- The places that are left fit a word. -/
theorem div_lt_of_target {m k : Nat} {e : Int} (hk : target m e = e + k) : m / 2 ^ k < 2 ^ 53 := by
  have hplaces : m.log2 + 1 ≤ 53 + k := by
    unfold target at hk
    omega
  rw [Nat.div_lt_iff_lt_mul (Nat.two_pow_pos k), ← Nat.pow_add]
  exact Nat.lt_of_lt_of_le Nat.lt_log2_self (Nat.pow_le_pow_right (by decide) hplaces)

/-- They are as many as a word has, unless the exponent is the least. -/
theorem le_div_of_target {m k : Nat} {e : Int} (hm : 0 < m) (hk : target m e = e + k)
    (hleast : e + k ≠ -1074) : 2 ^ 52 ≤ m / 2 ^ k := by
  have hplaces : m.log2 = 52 + k := by
    unfold target at hk
    omega
  rw [Nat.le_div_iff_mul_le (Nat.two_pow_pos k), ← Nat.pow_add, ← hplaces]
  exact Nat.log2_self_le hm.ne'

/-- What is rounded once has a place more than a word at most, and a word holds it. -/
theorem fits_of_rounded {r : Nat} {t : Int} (hr : r ≤ 2 ^ 53) (hleast : -1074 ≤ t)
    (hfull : t = -1074 ∨ 2 ^ 52 ≤ r) :
    ∃ l : Nat, (target r t - t).toNat = l ∧ Fits (r / 2 ^ l) (t + l) ∧
      (r : ℚ) * 2 ^ t = (r / 2 ^ l : Nat) * 2 ^ (t + l) := by
  rcases Nat.lt_or_eq_of_le hr with hlt | rfl
  · refine ⟨0, ?_, ?_, ?_⟩
    · have hlog : r.log2 ≤ 52 := by
        by_cases hzero : r = 0
        · rw [hzero]
          decide
        · have := (Nat.log2_lt hzero).mpr hlt
          omega
      unfold target
      omega
    · rw [Nat.pow_zero, Nat.div_one]
      exact ⟨hlt, by omega, by omega⟩
    · simp
  · refine ⟨1, ?_, ⟨by norm_num, by omega, .inr (by norm_num)⟩, ?_⟩
    · unfold target
      rw [Nat.log2_two_pow]
      omega
    · have hhalf : (2 ^ 53 / 2 ^ 1 : Nat) = 2 ^ 52 := by norm_num
      rw [hhalf, Nat.cast_one, zpow_add_one₀ two_ne_zero]
      push_cast
      ring

theorem round_eq (s : Sign) {m : Nat} {e : Int} (h : e ≤ target m e) :
    UnpackedFloat.round .binary64 s m e =
      UnpackedFloat.roundWithAccuracy .binary64 s m e .exact := by
  have hshift : (e - target m e).toNat = 0 := by omega
  unfold UnpackedFloat.round UnpackedFloat.decreaseExponent
  dsimp only
  rw [targetExponent_eq, hshift, Nat.shiftLeft_zero, Nat.cast_zero, sub_zero]

/-- Rounding does not pass a number that a word holds. -/
theorem round_of_le (s : Sign) {m n : Nat} {d e : Int} (hn : 0 < n) (hfits : Fits n d)
    (hed : e ≤ d) (hle : n * 2 ^ (d - e).toNat ≤ m) :
    ∃ m' e' hm', UnpackedFloat.round .binary64 s m e = .finite s m' e' hm' ∧ Fits m' e' ∧
      (n : ℚ) * 2 ^ d ≤ m' * 2 ^ e' := by
  have hm : 0 < m := Nat.lt_of_lt_of_le (Nat.mul_pos hn (Nat.two_pow_pos _)) hle
  have hd : d ≤ target m e := by
    unfold target
    rcases hfits.full with hleast | hplaces
    · omega
    · have hlog : 52 + (d - e).toNat ≤ m.log2 := by
        rw [Nat.le_log2 hm.ne', Nat.pow_add]
        exact (Nat.mul_le_mul_right _ hplaces).trans hle
      omega
  obtain ⟨k, hk⟩ : ∃ k : Nat, target m e = e + k := ⟨(target m e - e).toNat, by omega⟩
  have hleast : -1074 ≤ e + k := hk ▸ le_max_right _ _
  obtain ⟨r, hlow, hhigh, hround⟩ := roundWithAccuracy_eq s hk
  have hlt := div_lt_of_target hk
  have hfull : e + k = -1074 ∨ 2 ^ 52 ≤ r := by
    by_cases h : e + k = -1074
    · exact .inl h
    · exact .inr ((le_div_of_target hm hk h).trans hlow)
  -- the exponent is kept, and then the places above it are, or it grows
  have hkept : e + k = d → n ≤ r := by
    intro h
    have hshift : k = (d - e).toNat := by omega
    rw [hshift] at hlow
    exact ((Nat.le_div_iff_mul_le (Nat.two_pow_pos _)).mpr hle).trans hlow
  obtain ⟨l, hl, hfits', hvalue⟩ := fits_of_rounded (by omega) hleast hfull
  have hgrows : (n : ℚ) * 2 ^ d ≤ (r / 2 ^ l : Nat) * 2 ^ (e + k + l) := by
    by_cases h : e + k = d
    · rw [← hvalue, h]
      exact mul_le_mul_of_nonneg_right (by exact_mod_cast hkept h) (by positivity)
    · have hlast : d < e + k + l := by omega
      exact (hfits.lt_of_lt hfits' hlast).le
  have hpos : 0 < r / 2 ^ l := by
    by_contra hzero
    have hnone : r / 2 ^ l = 0 := Nat.eq_zero_of_not_pos hzero
    rw [hnone, Nat.cast_zero, zero_mul] at hgrows
    have hsome : (0 : ℚ) < n * 2 ^ d := mul_pos (by exact_mod_cast hn) (by positivity)
    exact absurd hgrows hsome.not_ge
  refine ⟨_, _, hpos, ?_, hfits', hgrows⟩
  rw [round_eq s (by omega), hround l hl hpos]

/-! ## Signs -/

/-- A number, as opposed to a NaN, of the given sign. -/
inductive HasSign (s : Sign) : UnpackedFloat → Prop
  | infinity : HasSign s (.infinity s)
  | zero : HasSign s (.zero s)
  | finite {m : Nat} {e : Int} (hm : 0 < m) : HasSign s (.finite s m e hm)

theorem HasSign.roundWithAccuracy (s : Sign) (m : Nat) (e : Int) :
    HasSign s (.roundWithAccuracy .binary64 s m e .exact) := by
  unfold UnpackedFloat.roundWithAccuracy
  dsimp only
  split
  · exact .zero
  · exact .finite _

/-- A square is positive. -/
theorem HasSign.mul_self {s : Sign} {u : UnpackedFloat} (h : HasSign s u) :
    HasSign .positive (.mul .binary64 u u) := by
  have hsquare : s * s = .positive := by cases s <;> rfl
  cases h with
  | infinity =>
    show HasSign .positive (.infinity (s * s))
    rw [hsquare]
    exact .infinity
  | zero =>
    show HasSign .positive (.zero (s * s))
    rw [hsquare]
    exact .zero
  | @finite m e hm =>
    show HasSign .positive (.roundWithAccuracy .binary64 (s * s) (m * m) (e + e) .exact)
    rw [hsquare]
    exact .roundWithAccuracy _ _ _

/-! ## Storing a result in a word -/

namespace Binary64

variable {x y : Binary64} {s : Sign} {u : UnpackedFloat}

/-- The word that an unpacked number is stored in. -/
def packed (u : UnpackedFloat) : Binary64 := ⟨⟨UnpackedFloat.pack .binary64 u⟩⟩

theorem unpacked_packed (u : UnpackedFloat) : (packed u).unpacked = repacked u := rfl

theorem mul_eq (x y : Binary64) : x * y = packed (.mul .binary64 x.unpacked y.unpacked) := by
  rw [← unpack_toFloat x, ← unpack_toFloat y]
  rfl

theorem add_eq (x y : Binary64) : x + y = packed (.add .binary64 x.unpacked y.unpacked) := by
  rw [← unpack_toFloat x, ← unpack_toFloat y]
  rfl

theorem sub_eq (x y : Binary64) : x - y = packed (.sub .binary64 x.unpacked y.unpacked) := by
  rw [← unpack_toFloat x, ← unpack_toFloat y]
  rfl

/-- The word with the given fields. -/
def ofFields (s : Sign) (exponent : BitVec 11) (fraction : BitVec 52) : Binary64 :=
  ⟨⟨packComponents .binary64 s exponent fraction⟩⟩

section Fields

variable {exponent : BitVec 11} {fraction : BitVec 52}

theorem exponentField_ofFields :
    double.exponentField (ofFields s exponent fraction).bits.toNat = exponent.toNat := by
  rw [← toNat_unpackExponent]
  exact congrArg BitVec.toNat Float.Model.UnpackedFloat.unpackExponent_packComponents

theorem fractionField_ofFields :
    double.fractionField (ofFields s exponent fraction).bits.toNat = fraction.toNat := by
  rw [← toNat_unpackMantissa]
  exact congrArg BitVec.toNat Float.Model.UnpackedFloat.unpackMantissa_packComponents

theorem sign_ofFields : (ofFields s exponent fraction).sign = s := by
  rw [← ofBitVec_unpackSign]
  show Sign.ofBitVec (@unpackSign .binary64 (packComponents .binary64 s exponent fraction)) = s
  rw [Float.Model.UnpackedFloat.unpackSign_packComponents]
  exact Sign.ofBitVec_toBitVec s

/-- A word whose exponent field is not full holds a number of its sign. -/
theorem isNaN_ofFields (h : exponent.toNat ≠ 2047) :
    (ofFields s exponent fraction).isNaN = false := by
  rw [← Bool.not_eq_true, isNaN_iff, exponentField_ofFields]
  exact fun hnan => h hnan.1

end Fields

/-- The word of a finite number: infinity if the exponent is too large, and else one with the digits
of the number. -/
theorem packed_finite {m : Nat} {e : Int} (hm : 0 < m) :
    (packed (.finite s m e hm) = packed (.infinity s)) ∨
      ∃ exponent : BitVec 11, exponent.toNat ≠ 2047 ∧
        packed (.finite s m e hm) = ofFields s exponent (.ofNat 52 m) ∧
        (m.log2 = 52 → exponent.toNat = (e + 1075).toNat) ∧ (m.log2 ≠ 52 → exponent.toNat = 0) := by
  unfold packed UnpackedFloat.pack
  dsimp only
  split
  · exact .inl rfl
  · rename_i hlarge
    change ¬ 2048 ≤ (e + (1023 : Int) + (52 : Int)).toNat + 1 at hlarge
    refine .inr ?_
    by_cases hplaces : m.log2 = 52
    · have hmod : (e + (1023 : Int) + (52 : Int)).toNat % 2048 = (e + 1075).toNat := by omega
      refine ⟨.ofNat 11 (e + (1023 : Int) + (52 : Int)).toNat, ?_, ?_, ?_, ?_⟩
      · rw [BitVec.toNat_ofNat]
        omega
      · rw [if_pos]
        · rfl
        · rw [hplaces]
          rfl
      · intro _
        rw [BitVec.toNat_ofNat]
        exact hmod
      · exact fun h => absurd hplaces h
    · refine ⟨0, by decide, ?_, fun h => absurd h hplaces, fun _ => rfl⟩
      rw [if_neg]
      · rfl
      · intro h
        change m.log2 + 1 = 53 at h
        omega

/-- A number keeps its sign, and stays a number. -/
theorem packed_of_hasSign (h : HasSign s u) : (packed u).isNaN = false ∧ (packed u).sign = s := by
  have hinfinity : (packed (.infinity s)).isNaN = false ∧ (packed (.infinity s)).sign = s := by
    cases s <;> exact ⟨rfl, rfl⟩
  cases h with
  | infinity => exact hinfinity
  | zero => cases s <;> exact ⟨rfl, rfl⟩
  | finite hm =>
    rcases packed_finite hm with hpacked | ⟨exponent, hfull, hpacked, -⟩
    · rw [hpacked]
      exact hinfinity
    · rw [hpacked]
      exact ⟨isNaN_ofFields hfull, sign_ofFields⟩

/-- The parts of the word with the digits of a number that fits are those of the number. -/
theorem parts_ofFields {m : Nat} {e : Int} {exponent : BitVec 11} (hm : 0 < m) (h : Fits m e)
    (hnormal : m.log2 = 52 → exponent.toNat = (e + 1075).toNat)
    (hsmall : m.log2 ≠ 52 → exponent.toNat = 0) :
    double.significand (ofFields s exponent (.ofNat 52 m)).bits.toNat = m ∧
      double.quantum (ofFields s exponent (.ofNat 52 m)).bits.toNat = e ∧
      (ofFields s exponent (.ofNat 52 m)).isZero = false := by
  have hleast := h.least
  have hlt := h.lt
  have hexponent : double.exponentField (ofFields s exponent (.ofNat 52 m)).bits.toNat =
      exponent.toNat := exponentField_ofFields
  have hfraction : double.fractionField (ofFields s exponent (.ofNat 52 m)).bits.toNat =
      m % 2 ^ 52 := fractionField_ofFields.trans (BitVec.toNat_ofNat m 52)
  rw [← Bool.not_eq_true, isZero_iff, BinaryLayout.significand, BinaryLayout.quantum,
    hexponent, hfraction]
  by_cases hplaces : m.log2 = 52
  · have hlow : 4503599627370496 ≤ m := (Nat.le_log2 hm.ne').mp (Nat.le_of_eq hplaces.symm)
    have hfield := hnormal hplaces
    have hnonzero : exponent.toNat ≠ 0 := by omega
    rw [if_neg hnonzero]
    refine ⟨?_, ?_, fun hzero => hnonzero hzero.1⟩
    · show 4503599627370496 + m % 4503599627370496 = m
      omega
    · show (-1074 : Int) + ((exponent.toNat - 1 : Nat) : Int) = e
      omega
  · -- fewer digits than places: the exponent is the least
    have hlog : m.log2 < 52 := by
      have := (Nat.log2_lt hm.ne').mpr hlt
      omega
    have hhigh : m < 4503599627370496 := (Nat.log2_lt hm.ne').mp hlog
    have he : e = -1074 := h.full.resolve_right (Nat.not_le_of_lt hhigh)
    rw [hsmall hplaces, if_pos rfl]
    refine ⟨Nat.mod_eq_of_lt hhigh, ?_, fun hzero => ?_⟩
    · rw [he]
      rfl
    · have hfractionless : m % 4503599627370496 = 0 := hzero.2
      rw [Nat.mod_eq_of_lt hhigh] at hfractionless
      omega

/-- A word holds a number that fits it, unless the exponent is too large. -/
theorem repacked_of_fits {m : Nat} {e : Int} (hm : 0 < m) (h : Fits m e) :
    repacked (.finite s m e hm) = .infinity s ∨ repacked (.finite s m e hm) = .finite s m e hm := by
  rw [← unpacked_packed]
  rcases packed_finite hm with hpacked | ⟨exponent, hfull, hpacked, hnormal, hsmall⟩
  · rw [hpacked]
    exact .inl (by cases s <;> rfl)
  · obtain ⟨hsignificand, hquantum, hzero⟩ := parts_ofFields (s := s) hm h hnormal hsmall
    have hfull' : double.exponentField (ofFields s exponent (.ofNat 52 m)).bits.toNat ≠ 2047 := by
      rwa [exponentField_ofFields]
    obtain ⟨hpos, hunpacked⟩ := unpacked_of_finite hfull' hzero
    obtain ⟨_, hsame⟩ := finite_congr hpos sign_ofFields hsignificand hquantum
    rw [hpacked]
    exact .inr (hunpacked.trans hsame)

end Binary64

/-! ## Bounds -/

/-- Infinity, or a number that is not below a bound. -/
inductive AtLeast (p : ℚ) : UnpackedFloat → Prop
  | infinity : AtLeast p (.infinity .positive)
  | stands {u : UnpackedFloat} {q : ℚ} : Stands u q → p ≤ q → AtLeast p u

section Bounds

variable {p : ℚ} {u v : UnpackedFloat}

/-- What is at least a bound that is not negative is infinity, a zero, or a positive number. -/
theorem AtLeast.cases (h : AtLeast p u) (hp : 0 ≤ p) :
    u = .infinity .positive ∨ (∃ s, u = .zero s ∧ p ≤ 0) ∨
      ∃ m e hm, u = .finite .positive m e hm ∧ Fits m e ∧ p ≤ m * 2 ^ e := by
  cases h with
  | infinity => exact .inl rfl
  | stands hstands hpq =>
    cases hstands with
    | zero s => exact .inr (.inl ⟨s, rfl, hpq⟩)
    | positive hm hfits => exact .inr (.inr ⟨_, _, hm, rfl, hfits, hpq⟩)
    | @negative m e hm _ =>
      have hpos : (0 : ℚ) < m * 2 ^ e := mul_pos (by exact_mod_cast hm) (by positivity)
      linarith

/-- A bound is kept when a word is made of a number. -/
theorem AtLeast.repacked (h : AtLeast p u) (hp : 0 ≤ p) : AtLeast p (repacked u) := by
  rcases h.cases hp with rfl | ⟨s, rfl, hzero⟩ | ⟨m, e, hm, rfl, hfits, hle⟩
  · exact .infinity
  · have hsame : SparseDatasets.repacked (.zero s) = .zero s := by cases s <;> rfl
    rw [hsame]
    exact .stands (.zero s) hzero
  · rcases Binary64.repacked_of_fits (s := .positive) hm hfits with hpacked | hpacked
    · rw [hpacked]
      exact .infinity
    · rw [hpacked]
      exact .stands (.positive hm hfits) hle

/-- A sum of positive numbers is at least the first one. -/
theorem add_positive {m n : Nat} {d e : Int} (hm : 0 < m) (hn : 0 < n) (hfits : Fits m d)
    (hle : p ≤ m * 2 ^ d) :
    AtLeast p (.add .binary64 (.finite .positive m d hm) (.finite .positive n e hn)) := by
  have hshift : ∀ (k : Nat) (c : Int),
      (UnpackedFloat.decreaseExponent k c (min d e)).1 = k * 2 ^ (c - min d e).toNat := fun k c =>
    Nat.shiftLeft_eq _ _
  show AtLeast p (.normalize .binary64
    (((UnpackedFloat.decreaseExponent m d (min d e)).1 : Int) +
      ((UnpackedFloat.decreaseExponent n e (min d e)).1 : Int)) (min d e) .positive)
  rw [hshift, hshift]
  generalize hsum : m * 2 ^ (d - min d e).toNat + n * 2 ^ (e - min d e).toNat = sum
  have hcast : ((m * 2 ^ (d - min d e).toNat : Nat) : Int) +
      ((n * 2 ^ (e - min d e).toNat : Nat) : Int) = (sum : Int) := by
    rw [← hsum]
    push_cast
    rfl
  have hpos : 0 < sum := by
    have := Nat.mul_pos hm (Nat.two_pow_pos (d - min d e).toNat)
    omega
  rw [hcast]
  unfold UnpackedFloat.normalize
  rw [compare_gt_iff_gt.mpr (by exact_mod_cast hpos)]
  dsimp only
  rw [Int.toNat_natCast]
  obtain ⟨m', e', hm', hround, hfits', hgrows⟩ :=
    round_of_le .positive hm hfits (min_le_left d e) (by omega : _ ≤ sum)
  rw [hround]
  exact .stands (.positive hm' hfits') (hle.trans hgrows)

/-- Adding what is at least zero keeps a bound. -/
theorem AtLeast.add (hu : AtLeast p u) (hp : 0 ≤ p) (hv : AtLeast 0 v) :
    AtLeast p (.add .binary64 u v) := by
  rcases hu.cases hp with rfl | ⟨s, rfl, hzero⟩ | ⟨m, d, hm, rfl, hfits, hle⟩
  · rcases hv.cases le_rfl with rfl | ⟨t, rfl, -⟩ | ⟨n, e, hn, rfl, -⟩ <;> exact .infinity
  · rcases hv.cases le_rfl with rfl | ⟨t, rfl, -⟩ | ⟨n, e, hn, rfl, hfits, hle⟩
    · exact .infinity
    · cases s <;> cases t <;> exact .stands (.zero _) hzero
    · exact .stands (.positive hn hfits) (hzero.trans hle)
  · rcases hv.cases le_rfl with rfl | ⟨t, rfl, -⟩ | ⟨n, e, hn, rfl, -⟩
    · exact .infinity
    · exact .stands (.positive hm hfits) hle
    · exact add_positive hm hn hfits hle

end Bounds

namespace Binary64

variable {x y : Binary64} {p : ℚ}

/-- The doubles from a finite one on are those that are at least its number. -/
theorem le_iff_atLeast (hy : y.rational? = some p) : le y x = true ↔ AtLeast p x.unpacked := by
  cases hx : x.rational? with
  | some q =>
    rw [le_iff hy hx]
    refine ⟨.stands (stands hx), fun h => ?_⟩
    have hq := stands hx
    generalize x.unpacked = u at h hq
    cases h with
    | infinity => cases hq
    | stands hp hle =>
      rw [hq.unique hp]
      exact hle
  | none =>
    have hy' := stands hy
    rw [le_eq]
    generalize y.unpacked = v at hy'
    rcases isNaN_or_isInfinite hx with hnan | hinfinite
    · rw [unpacked_of_isNaN hnan]
      refine iff_of_false (by cases hy' <;> exact Bool.false_ne_true) fun h => ?_
      cases h with
      | stands h _ => cases h
    · rw [unpacked_of_isInfinite hinfinite]
      cases x.sign with
      | positive => exact iff_of_true (by cases hy' <;> rfl) .infinity
      | negative =>
        refine iff_of_false (by cases hy' <;> exact Bool.false_ne_true) fun h => ?_
        cases h with
        | stands h _ => cases h

/-- What is at least one is not zero. -/
theorem isZero_of_atLeast_one (h : AtLeast 1 x.unpacked) : Element.isZero x = false := by
  rw [← Bool.not_eq_true]
  intro hequal
  obtain ⟨-, hzero⟩ := (equal_eq_true_iff x 0).mp hequal
  have hx : x.isZero = true := by
    rcases hzero with rfl | ⟨hx, -⟩
    · rfl
    · exact hx
  rw [unpacked_of_isZero hx] at h
  cases h with
  | stands hstands hle =>
    cases hstands
    exact absurd hle (by norm_num)

/-- A number that is positive is at least zero. -/
theorem atLeast_zero (hnan : x.isNaN = false) (hsign : x.sign = .positive) :
    AtLeast 0 x.unpacked := by
  cases hx : x.rational? with
  | some q =>
    refine .stands (stands hx) ?_
    obtain ⟨-, rfl⟩ := rational?_eq_some_iff.mp hx
    have hnegative : x.negative = false := by
      unfold sign at hsign
      by_contra h
      rw [if_pos (by simpa using h)] at hsign
      cases hsign
    rw [rational, hnegative]
    simp only [Bool.false_eq_true, ↓reduceIte, one_mul]
    positivity
  | none =>
    have hinfinite : x.isInfinite = true := by
      rcases isNaN_or_isInfinite hx with h | h
      · rw [hnan] at h
        cases h
      · exact h
    rw [unpacked_of_isInfinite hinfinite, hsign]
    exact .infinity

theorem hasSign_unpacked (h : x.isNaN = false) : HasSign x.sign x.unpacked := by
  by_cases hfull : double.exponentField x.bits.toNat = 2047
  · have hinfinite : x.isInfinite = true := by
      rw [isInfinite_iff]
      refine ⟨hfull, ?_⟩
      by_contra hfraction
      rw [isNaN_iff.mpr ⟨hfull, hfraction⟩] at h
      cases h
    rw [unpacked_of_isInfinite hinfinite]
    exact .infinity
  · cases hzero : x.isZero with
    | true =>
      rw [unpacked_of_isZero hzero]
      exact .zero
    | false =>
      obtain ⟨hpos, hunpacked⟩ := unpacked_of_finite hfull hzero
      rw [hunpacked]
      exact .finite hpos

/-! ## Squares and sums -/

/-- The square of a number is at least zero. -/
theorem atLeast_mul_self (h : x.isNaN = false) : AtLeast 0 (x * x).unpacked := by
  obtain ⟨hnan, hsign⟩ := packed_of_hasSign (hasSign_unpacked h).mul_self
  rw [mul_eq]
  exact atLeast_zero hnan hsign

/-- Adding what is at least zero does not take a sum below a bound. -/
theorem atLeast_add (hx : AtLeast p x.unpacked) (hp : 0 ≤ p) (hy : AtLeast 0 y.unpacked) :
    AtLeast p (x + y).unpacked := by
  rw [add_eq, unpacked_packed]
  exact (hx.add hp hy).repacked hp

theorem atLeast_one : AtLeast 1 (1 : Binary64).unpacked := .stands (stands rational?_one) le_rfl

theorem one_mul_one : (1 : Binary64) * 1 = 1 := by decide +kernel

theorem zero_add_one : (0 : Binary64) + 1 = 1 := by decide +kernel

end Binary64

end SparseDatasets
