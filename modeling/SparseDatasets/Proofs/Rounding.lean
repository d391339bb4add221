import SparseDatasets.Proofs.Doubles

/-!
# Rounding to a double

The word nearest to a quotient is found from the step between the words around
the quotient, which is then rounded to a whole number of steps. A number rounds to
a word if it is off by half a step at most, and the ends belong to the even words.
Below a power of two the step is half as long.

- `roundHalfEven_eq`: the whole number nearest to a quotient.
- `Binade`: the step between the words around a positive number.
- `nearest_eq`: the nearest word, from the step around the quotient.
- `RoundsTo`: the numbers that round to a significand and an exponent.
- `RoundsTo.nearest_eq`: **a number that rounds to a word has it as its nearest.**
- `Binary64.ofQuotient_eq`: so does a quotient that is read with a sign.
- `Binary64.rational?_ofNat`: natural numbers of fifty-three digits are doubles.
-/

namespace SparseDatasets

open BinaryLayout (double)

/-! ## Whole numbers -/

/-- A whole number half a unit away at most is the nearest, if an exact half goes to it. -/
theorem roundHalfEven_eq {num den k : Nat} (hden : 0 < den) (hlow : 2 * (k * den) ≤ 2 * num + den)
    (hhigh : 2 * num ≤ 2 * (k * den) + den)
    (hodd : k % 2 = 1 → 2 * (k * den) < 2 * num + den ∧ 2 * num < 2 * (k * den) + den) :
    roundHalfEven num den = k := by
  have hnum : num = num / den * den + num % den := (Nat.div_add_mod' num den).symm
  have hrest : num % den < den := Nat.mod_lt _ hden
  unfold roundHalfEven
  generalize num / den = quotient at hnum ⊢
  generalize num % den = rest at hnum hrest ⊢
  have hle : quotient ≤ k := by
    by_contra hlt
    have hmul : (k + 1) * den ≤ quotient * den := Nat.mul_le_mul_right den (by omega)
    rw [Nat.succ_mul] at hmul
    omega
  have hge : k ≤ quotient + 1 := by
    by_contra hlt
    have hmul : (quotient + 2) * den ≤ k * den := Nat.mul_le_mul_right den (by omega)
    rw [Nat.add_mul] at hmul
    omega
  dsimp only
  rcases Nat.eq_or_lt_of_le hle with rfl | hlt
  · -- the rest is half a unit at most
    have hparity := Nat.mod_two_eq_zero_or_one quotient
    split
    · rfl
    · rw [if_neg (by omega), if_pos (by omega)]
  · -- the rest is half a unit at least
    obtain rfl : k = quotient + 1 := by omega
    have hmul : (quotient + 1) * den = quotient * den + den := Nat.succ_mul quotient den
    rw [hmul] at hlow hhigh hodd
    rw [if_neg (by omega)]
    split
    · rfl
    · rw [if_neg (by omega)]

/-- The nearest whole number, by the distance of the quotient from it. -/
theorem roundHalfEven_of_close {num den k : Nat} (hden : 0 < den)
    (hlow : (k : ℚ) - 1 / 2 ≤ num / den) (hhigh : (num : ℚ) / den ≤ k + 1 / 2)
    (hodd : k % 2 = 1 → (k : ℚ) - 1 / 2 < num / den ∧ (num : ℚ) / den < k + 1 / 2) :
    roundHalfEven num den = k := by
  have hden' : (0 : ℚ) < den := by exact_mod_cast hden
  rw [le_div_iff₀ hden'] at hlow
  rw [div_le_iff₀ hden'] at hhigh
  rw [lt_div_iff₀ hden', div_lt_iff₀ hden'] at hodd
  refine roundHalfEven_eq hden ?_ ?_ fun hk => ?_
  · qify
    linarith
  · qify
    linarith
  · obtain ⟨hlow', hhigh'⟩ := hodd hk
    qify
    exact ⟨by linarith, by linarith⟩

/-! ## The step around a number -/

/-- The step between the words around a positive number is `2 ^ q`: the number is less than `2 ^ 53`
steps, and not less than half as many unless the step is the least. -/
structure Binade (p : ℚ) (q : Int) : Prop where
  least : -1074 ≤ q
  lt : p < 2 ^ (q + 53)
  le : q = -1074 ∨ 2 ^ (q + 52) ≤ p

/-- A bound on a number in other steps. -/
theorem Binade.div_lt {p : ℚ} {q e : Int} (h : Binade p q) {n : Nat} (hn : q + 53 ≤ n + e) :
    p / 2 ^ e < 2 ^ n := by
  rw [div_lt_iff₀ (by positivity), ← zpow_natCast, ← zpow_add₀ two_ne_zero]
  calc p < 2 ^ (q + 53) := h.lt
    _ ≤ 2 ^ ((n : Int) + e) := zpow_le_zpow_right₀ one_le_two hn

/-- A power with an exponent of either sign, in powers that are whole numbers. -/
theorem zpow_mul_toNat {a : ℚ} (ha : a ≠ 0) (k : Int) : a ^ k * a ^ (-k).toNat = a ^ k.toNat := by
  rw [← zpow_natCast, ← zpow_natCast, ← zpow_add₀ ha]
  congr 1
  omega

section Nearest

variable {num den : Nat}

/-- A quotient is found between powers of two from the leading digits of its two numbers. -/
theorem quotient_bounds (hnum : 0 < num) (hden : 0 < den) :
    (2 : ℚ) ^ ((num.log2 : Int) - den.log2 - 1) < num / den ∧
      (num : ℚ) / den < 2 ^ ((num.log2 : Int) - den.log2 + 1) := by
  have hden' : (0 : ℚ) < den := by exact_mod_cast hden
  have hnumlow : (2 : ℚ) ^ (num.log2 : Int) ≤ num := by
    rw [zpow_natCast]
    exact_mod_cast Nat.log2_self_le hnum.ne'
  have hnumhigh : (num : ℚ) < 2 ^ ((num.log2 : Int) + 1) := by
    rw [← Nat.cast_succ, zpow_natCast]
    exact_mod_cast Nat.lt_log2_self
  have hdenlow : (2 : ℚ) ^ (den.log2 : Int) ≤ den := by
    rw [zpow_natCast]
    exact_mod_cast Nat.log2_self_le hden.ne'
  have hdenhigh : (den : ℚ) < 2 ^ ((den.log2 : Int) + 1) := by
    rw [← Nat.cast_succ, zpow_natCast]
    exact_mod_cast Nat.lt_log2_self
  rw [lt_div_iff₀ hden', div_lt_iff₀ hden']
  constructor
  · calc (2 : ℚ) ^ ((num.log2 : Int) - den.log2 - 1) * den
        < 2 ^ ((num.log2 : Int) - den.log2 - 1) * 2 ^ ((den.log2 : Int) + 1) := by gcongr
      _ = 2 ^ (num.log2 : Int) := by
        rw [← zpow_add₀ two_ne_zero]
        congr 1
        ring
      _ ≤ num := hnumlow
  · calc (num : ℚ) < 2 ^ ((num.log2 : Int) + 1) := hnumhigh
      _ = 2 ^ ((num.log2 : Int) - den.log2 + 1) * 2 ^ (den.log2 : Int) := by
        rw [← zpow_add₀ two_ne_zero]
        congr 1
        ring
      _ ≤ 2 ^ ((num.log2 : Int) - den.log2 + 1) * den := by gcongr

/-- A quotient in units of a power of two, which may be a fraction, as a quotient. -/
theorem scaled_eq (q : Int) :
    ((num * Nat.pow 2 (-q).toNat : Nat) : ℚ) / ((den * Nat.pow 2 q.toNat : Nat) : ℚ) =
      num / den / 2 ^ q := by
  show ((num * 2 ^ (-q).toNat : Nat) : ℚ) / ((den * 2 ^ q.toNat : Nat) : ℚ) = _
  push_cast
  rw [← zpow_mul_toNat two_ne_zero q, div_div, ← mul_assoc, mul_div_mul_right]
  positivity

/-- Whether the quotient has no more digits than a significand, as the rounding asks it. -/
theorem scaled_lt_iff (hden : 0 < den) (q : Int) :
    num * Nat.pow 2 (-q).toNat / (den * Nat.pow 2 q.toNat) < Nat.pow 2 (double.fractionBits + 1) ↔
      (num : ℚ) / den < 2 ^ (q + 53) := by
  have hscaled : 0 < den * Nat.pow 2 q.toNat := Nat.mul_pos hden (Nat.two_pow_pos _)
  have hscaled' : (0 : ℚ) < (den * Nat.pow 2 q.toNat : Nat) := by exact_mod_cast hscaled
  have hunits : (num : ℚ) / den / 2 ^ q < 2 ^ 53 ↔ (num : ℚ) / den < 2 ^ (q + 53) := by
    rw [div_lt_iff₀ (by positivity), add_comm q, zpow_add₀ two_ne_zero]
    rfl
  rw [← hunits, ← scaled_eq, div_lt_iff₀ hscaled', Nat.div_lt_iff_lt_mul hscaled]
  exact_mod_cast Iff.rfl

/-- The nearest word is that of the quotient in whole steps. -/
theorem nearest_eq (hnum : 0 < num) (hden : 0 < den) :
    ∃ q, Binade (num / den) q ∧ ∃ n d : Nat, 0 < d ∧ (n : ℚ) / d = num / den / 2 ^ q ∧
      double.nearest num den =
        min double.infinity ((q + 1074).toNat * 2 ^ 52 + roundHalfEven n d) := by
  obtain ⟨hlow, hhigh⟩ := quotient_bounds hnum hden
  unfold BinaryLayout.nearest
  rw [if_neg hnum.ne']
  dsimp only
  generalize hguess : (num.log2 : Int) - den.log2 - 1 - (double.fractionBits : Nat) = guess
  have hplaces : (num.log2 : Int) - den.log2 - 1 = guess + 52 := by
    rw [← hguess]
    show _ = (num.log2 : Int) - den.log2 - 1 - 52 + 52
    ring
  have hplaces' : (num.log2 : Int) - den.log2 + 1 = guess + 54 := by omega
  rw [hplaces] at hlow
  rw [hplaces'] at hhigh
  -- the guess or the one above it has as many digits as a significand
  generalize hq : (if decide (num * Nat.pow 2 (-guess).toNat / (den * Nat.pow 2 guess.toNat) <
    Nat.pow 2 (double.fractionBits + 1)) = true then guess else guess + 1) = q
  have hexact : (2 : ℚ) ^ (q + 52) ≤ num / den ∧ (num : ℚ) / den < 2 ^ (q + 53) := by
    simp only [decide_eq_true_eq, scaled_lt_iff hden] at hq
    split at hq
    · rename_i hfits
      subst hq
      exact ⟨hlow.le, hfits⟩
    · rename_i hfits
      subst hq
      rw [add_assoc, add_assoc]
      exact ⟨not_lt.mp hfits, hhigh⟩
  have hleast : double.leastQuantum = -1074 := rfl
  rw [hleast]
  refine ⟨max (-1074) q, ⟨le_max_left _ _, ?_, ?_⟩, _, _,
    Nat.mul_pos hden (Nat.two_pow_pos _), scaled_eq (max (-1074) q), ?_⟩
  · calc (num : ℚ) / den < 2 ^ (q + 53) := hexact.2
      _ ≤ 2 ^ (max (-1074) q + 53) := zpow_le_zpow_right₀ one_le_two (by omega)
  · rcases le_total q (-1074) with hq | hq
    · exact .inl (max_eq_left hq)
    · rw [max_eq_right hq]
      exact .inr hexact.1
  · rw [sub_neg_eq_add]
    rfl

end Nearest

/-! ## The numbers that round to a word -/

/-- A number, in steps of `2 ^ e`, rounds to `m` steps: it is off by half a step at most, a half
goes to the even significand, and the step below a power of two is half as long. -/
structure RoundsTo (p : ℚ) (m : Nat) (e : Int) : Prop where
  low : (m : ℚ) - 1 / 2 ≤ p / 2 ^ e
  high : p / 2 ^ e ≤ m + 1 / 2
  odd : m % 2 = 1 → (m : ℚ) - 1 / 2 < p / 2 ^ e ∧ p / 2 ^ e < m + 1 / 2
  narrow : m = 2 ^ 52 → -1074 < e → (m : ℚ) - 1 / 4 ≤ p / 2 ^ e

namespace RoundsTo

variable {p : ℚ} {m num den : Nat} {e q : Int}

/-- A number rounds to itself. -/
theorem self (m : Nat) (e : Int) : RoundsTo (m * 2 ^ e) m e := by
  have hself : (m * 2 ^ e : ℚ) / 2 ^ e = m := mul_div_cancel_right₀ _ (by positivity)
  constructor
  · rw [hself]; linarith
  · rw [hself]; linarith
  · rw [hself]; exact fun _ => ⟨by linarith, by linarith⟩
  · rw [hself]; exact fun _ _ => by linarith

theorem pos (h : RoundsTo p m e) (hm : 0 < m) : 0 < p := by
  have hone : (1 : ℚ) ≤ m := by exact_mod_cast hm
  have hscaled : 0 < p / 2 ^ e := by linarith [h.low]
  exact (div_pos_iff_of_pos_right (by positivity)).mp hscaled

/-- The step around the number is that of the word, or half of it just below a power of two. -/
theorem binade (h : RoundsTo p m e) (hfits : Fits m e) (hq : Binade p q) :
    q = e ∨ q = e - 1 ∧ m = 2 ^ 52 ∧ -1074 < e ∧ p / 2 ^ e < 2 ^ 52 := by
  have hstep : (0 : ℚ) < 2 ^ e := by positivity
  rcases lt_trichotomy q e with hlt | rfl | hgt
  · -- the number is below the powers of two of the word's step
    have he : -1074 < e := lt_of_le_of_lt hq.least hlt
    have hfull : 2 ^ 52 ≤ m := hfits.full.resolve_left he.ne'
    have hbelow : p / 2 ^ e < 2 ^ 52 := hq.div_lt (by omega)
    have hpower : m = 2 ^ 52 := by
      by_contra hne
      have hnext : ((2 ^ 52 + 1 : Nat) : ℚ) ≤ m := by exact_mod_cast (by omega : 2 ^ 52 + 1 ≤ m)
      push_cast at hnext
      linarith [h.low]
    refine .inr ⟨?_, hpower, he, hbelow⟩
    by_contra hne
    have hfar : p / 2 ^ e < 2 ^ 51 := hq.div_lt (by omega)
    have hnarrow := h.narrow hpower he
    rw [hpower] at hnarrow
    norm_num at hnarrow hfar
    linarith
  · exact .inl rfl
  · -- the number has as many digits as a significand in the greater step
    have hq' : (2 : ℚ) ^ (q + 52) ≤ p := hq.le.resolve_left (by have := hfits.least; omega)
    have hbeyond : (2 : ℚ) ^ 53 ≤ p / 2 ^ e := by
      rw [le_div_iff₀ hstep, ← zpow_natCast, ← zpow_add₀ two_ne_zero]
      calc (2 : ℚ) ^ (((53 : Nat) : Int) + e) ≤ 2 ^ (q + 52) :=
            zpow_le_zpow_right₀ one_le_two (by push_cast; omega)
        _ ≤ p := hq'
    have hlast : (m : ℚ) + 1 ≤ 2 ^ 53 := by exact_mod_cast hfits.lt
    linarith [h.high]

/-- **A number that rounds to a word has it as its nearest.** -/
theorem nearest_eq (h : RoundsTo (num / den) m e) (hfits : Fits m e) (hm : 0 < m) (he : e ≤ 971)
    (hden : 0 < den) : double.nearest num den = (e + 1074).toNat * 2 ^ 52 + m := by
  have hden' : (0 : ℚ) < den := by exact_mod_cast hden
  have hnum : 0 < num := by exact_mod_cast (div_pos_iff_of_pos_right hden').mp (h.pos hm)
  obtain ⟨q, hq, n, d, hd, hsteps, hnearest⟩ := SparseDatasets.nearest_eq hnum hden
  have hinfinity : double.infinity = 2047 * 2 ^ 52 := by decide
  have hlt := hfits.lt
  have hleast := hfits.least
  rw [hnearest, hinfinity]
  rcases h.binade hfits hq with rfl | ⟨rfl, hpower, hmore, hbelow⟩
  · rw [roundHalfEven_of_close (k := m) hd (hsteps ▸ h.low) (hsteps ▸ h.high) (hsteps ▸ h.odd)]
    omega
  · -- in half steps the number rounds to twice the power of two, which carries
    have hhalf : (num : ℚ) / den / 2 ^ (e - 1) = 2 * (num / den / 2 ^ e) := by
      rw [zpow_sub_one₀ two_ne_zero]
      field_simp
    have hnarrow := h.narrow hpower hmore
    rw [hpower] at hnarrow
    norm_num at hnarrow hbelow
    have hround : roundHalfEven n d = 2 ^ 53 := by
      refine roundHalfEven_of_close hd ?_ ?_ fun hodd => by omega
      · rw [hsteps, hhalf]
        norm_num
        linarith
      · rw [hsteps, hhalf]
        norm_num
        linarith
    have hcarry : (e - 1 + 1074).toNat * 2 ^ 52 + 2 ^ 53 = (e + 1074).toNat * 2 ^ 52 + 2 ^ 52 := by
      norm_num
      omega
    rw [hround, hpower, hcarry]
    exact min_eq_right (by omega)

end RoundsTo

namespace Binary64

/-! ## Quotients read as doubles -/

section Quotient

variable {x : Binary64} {num den : Nat}

/-- The bits of a double are its sign, the place of its step and its significand. -/
theorem toNat_bits (x : Binary64) :
    x.bits.toNat = (if x.negative then double.signWeight else 0) +
      ((double.quantum x.bits.toNat + 1074).toNat * 2 ^ 52 + double.significand x.bits.toNat) := by
  have hword : x.bits.toNat < 2 ^ 64 := x.bits.toNat_lt
  have hplace : (double.quantum x.bits.toNat + 1074).toNat =
      double.exponentField x.bits.toNat - 1 := by
    show ((-1074 : Int) + ((double.exponentField x.bits.toNat - 1 : Nat) : Int) + 1074).toNat = _
    omega
  have hexponent : double.exponentField x.bits.toNat =
    x.bits.toNat % 9223372036854775808 / 4503599627370496 := rfl
  have hfraction : double.fractionField x.bits.toNat = x.bits.toNat % 4503599627370496 := rfl
  have hnegative : x.negative = decide (9223372036854775808 ≤ x.bits.toNat) := rfl
  have hsign : double.signWeight = 9223372036854775808 := by decide
  have hleading : Nat.pow 2 double.fractionBits = 4503599627370496 := by decide
  rw [hplace, BinaryLayout.significand, hexponent, hfraction, hnegative, hsign, hleading]
  simp only [decide_eq_true_eq]
  split <;> split <;> omega

/-- The greatest step of a finite double. -/
theorem quantum_le (hfull : double.exponentField x.bits.toNat ≠ 2047) :
    double.quantum x.bits.toNat ≤ 971 := by
  have hexponent : double.exponentField x.bits.toNat < 2048 := by
    show x.bits.toNat % 9223372036854775808 / 4503599627370496 < 2048
    omega
  show (-1074 : Int) + ((double.exponentField x.bits.toNat - 1 : Nat) : Int) ≤ 971
  omega

/-- A quotient that rounds to the magnitude of a double is read as this double. -/
theorem ofQuotient_eq (hfull : double.exponentField x.bits.toNat ≠ 2047) (hzero : x.isZero = false)
    (hden : 0 < den) (h : RoundsTo (num / den) (double.significand x.bits.toNat)
      (double.quantum x.bits.toNat)) : ofQuotient x.negative num den = x := by
  obtain ⟨hpos, -⟩ := unpacked_of_finite hfull hzero
  unfold ofQuotient
  rw [h.nearest_eq x.fits hpos (quantum_le hfull) hden, ← toNat_bits]
  exact congrArg Binary64.mk (UInt64.ofNat_toNat)

/-- Nothing is read as the zero of the sign. -/
theorem ofQuotient_zero (hzero : x.isZero = true) : ofQuotient x.negative 0 1 = x := by
  obtain ⟨hexponent, hfraction⟩ := isZero_iff.mp hzero
  have hbits : x.bits.toNat = (if x.negative then double.signWeight else 0) + 0 := by
    rw [toNat_bits, BinaryLayout.quantum, BinaryLayout.significand, hexponent, if_pos rfl,
      hfraction]
    rfl
  unfold ofQuotient
  rw [show double.nearest 0 1 = 0 from rfl, ← hbits]
  exact congrArg Binary64.mk UInt64.ofNat_toNat

end Quotient

/-! ## Natural numbers -/

section Natural

variable {n : Nat}

/-- A natural number fills the places of a significand once it is scaled. -/
theorem scaled_bounds (hpos : 0 < n) (hlt : n < 2 ^ 53) :
    2 ^ 52 ≤ n * 2 ^ (52 - n.log2) ∧ n * 2 ^ (52 - n.log2) < 2 ^ 53 := by
  have hlog : n.log2 < 53 := (Nat.log2_lt hpos.ne').mpr hlt
  constructor
  · calc 2 ^ 52 = 2 ^ n.log2 * 2 ^ (52 - n.log2) := by rw [← pow_add]; congr 1; omega
      _ ≤ n * 2 ^ (52 - n.log2) := Nat.mul_le_mul_right _ (Nat.log2_self_le hpos.ne')
  · calc n * 2 ^ (52 - n.log2) < 2 ^ (n.log2 + 1) * 2 ^ (52 - n.log2) :=
          Nat.mul_lt_mul_of_pos_right Nat.lt_log2_self (by positivity)
      _ = 2 ^ 53 := by rw [← pow_add]; congr 1; omega

/-- A natural number, in steps of the significand that it fills. -/
theorem scaled_value (hlog : n.log2 < 53) :
    (n : ℚ) = ((n * 2 ^ (52 - n.log2) : Nat) : ℚ) * 2 ^ ((n.log2 : Int) - 52) := by
  have hcancel : ((52 - n.log2 : Nat) : Int) + ((n.log2 : Int) - 52) = 0 := by omega
  rw [Nat.cast_mul, Nat.cast_pow, Nat.cast_ofNat, mul_assoc, ← zpow_natCast,
    ← zpow_add₀ two_ne_zero, hcancel, zpow_zero, mul_one]

/-- The word of a natural number with no more digits than a significand has places. -/
theorem nearest_natural (hpos : 0 < n) (hlt : n < 2 ^ 53) :
    double.nearest n 1 = (n.log2 + 1022) * 2 ^ 52 + n * 2 ^ (52 - n.log2) := by
  have hlog : n.log2 < 53 := (Nat.log2_lt hpos.ne').mpr hlt
  obtain ⟨hlow, hhigh⟩ := scaled_bounds hpos hlt
  have hfits : Fits (n * 2 ^ (52 - n.log2)) ((n.log2 : Int) - 52) := ⟨hhigh, by omega, .inr hlow⟩
  have hrounds : RoundsTo (n / (1 : Nat)) (n * 2 ^ (52 - n.log2)) ((n.log2 : Int) - 52) := by
    rw [Nat.cast_one, div_one]
    nth_rewrite 1 [scaled_value hlog]
    exact .self _ _
  have hfield : ((n.log2 : Int) - 52 + 1074).toNat = n.log2 + 1022 := by omega
  rw [hrounds.nearest_eq hfits (by omega) (by omega) Nat.one_pos, hfield]

theorem toNat_ofNat (hpos : 0 < n) (hlt : n < 2 ^ 53) :
    (ofNat n).bits.toNat = (n.log2 + 1022) * 2 ^ 52 + n * 2 ^ (52 - n.log2) := by
  have hlog : n.log2 < 53 := (Nat.log2_lt hpos.ne').mpr hlt
  obtain ⟨-, hhigh⟩ := scaled_bounds hpos hlt
  have hbits : (ofNat n).bits = (0 + double.nearest n 1).toUInt64 := rfl
  rw [hbits, nearest_natural hpos hlt, Nat.toUInt64, UInt64.toNat_ofNat', Nat.mod_eq_of_lt,
    zero_add]
  generalize n * 2 ^ (52 - n.log2) = digits at hhigh
  calc 0 + ((n.log2 + 1022) * 2 ^ 52 + digits) < (n.log2 + 1024) * 2 ^ 52 := by omega
    _ ≤ 2 ^ 12 * 2 ^ 52 := Nat.mul_le_mul_right _ (by omega)

/-- A natural number with no more digits than a significand has places is a double. -/
theorem rational?_ofNat (hlt : n < 2 ^ 53) : (ofNat n).rational? = some (n : ℚ) := by
  rcases Nat.eq_zero_or_pos n with rfl | hpos
  · exact rational?_zero
  · have hlog : n.log2 < 53 := (Nat.log2_lt hpos.ne').mpr hlt
    obtain ⟨hlow, hhigh⟩ := scaled_bounds hpos hlt
    have hword := toNat_ofNat hpos hlt
    have hvalue := scaled_value hlog
    have hweight : 2 ^ 52 = 4503599627370496 := by norm_num
    rw [hweight] at hlow hword
    generalize n * 2 ^ (52 - n.log2) = digits at hlow hhigh hword hvalue
    have hexponent : double.exponentField (ofNat n).bits.toNat = n.log2 + 1023 := by
      show (ofNat n).bits.toNat % 9223372036854775808 / 4503599627370496 = _
      omega
    have hfraction : double.fractionField (ofNat n).bits.toNat = digits - 4503599627370496 := by
      show (ofNat n).bits.toNat % 4503599627370496 = _
      omega
    have hnegative : (ofNat n).negative = false := by
      show decide (9223372036854775808 ≤ (ofNat n).bits.toNat) = false
      rw [decide_eq_false_iff_not]
      omega
    have hsignificand : double.significand (ofNat n).bits.toNat = digits := by
      rw [BinaryLayout.significand, if_neg (by omega), hfraction]
      show 4503599627370496 + _ = _
      omega
    have hquantum : double.quantum (ofNat n).bits.toNat = (n.log2 : Int) - 52 := by
      rw [BinaryLayout.quantum, hexponent]
      show (-1074 : Int) + ((n.log2 + 1023 - 1 : Nat) : Int) = _
      omega
    refine rational?_eq_some_iff.mpr ⟨by omega, ?_⟩
    rw [rational, hnegative, hsignificand, hquantum, hvalue]
    simp

end Natural

end Binary64

end SparseDatasets
