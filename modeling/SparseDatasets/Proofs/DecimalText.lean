import SparseDatasets.Proofs.Numerals
import SparseDatasets.Proofs.Shortest

/-!
# Doubles are read back from their texts

A decimal is laid out positionally or with a power of ten. Either way its text is
that of parts which stand for the decimal itself, and reading rounds what the parts
stand for once. As the shortest decimal of a double rounds to the double, it comes
back.

- `DecimalLiteral.value`: the number that a literal stands for, up to its sign.
- `Spells`: a text with its sign in front has parts that stand for a number.
- `DecimalStyle.spells_write`: a decimal, positional or not, is spelled by its text.
- `DecimalLiteral.toBinary64_eq`: reading rounds to nearest.
- `Binary64.IsFinite.ofJson?_toJson`: **a finite double is read back from its text.**
-/

namespace SparseDatasets

open BinaryLayout (double)
open NumberParts (AreDigits signChars fractionChars exponentChars areDigits_toDigits)

/-! ## Digits -/

theorem digitsValue_append (front back : List Char) :
    digitsValue (front ++ back) = 10 ^ back.length * digitsValue front + digitsValue back := by
  show Nat.ofDigitChars 10 (front ++ back) 0 = _
  rw [Nat.ofDigitChars_append, Nat.ofDigitChars_eq_ofDigitChars_zero]
  rfl

theorem digitsValue_zeros (n : Nat) : digitsValue (List.replicate n '0') = 0 :=
  Nat.ofDigitChars_replicate_zero.trans (Nat.mul_zero _)

theorem Decimal.digitsValue_digitChars (d : Decimal) : digitsValue d.digitChars = d.digits :=
  Nat.ofDigitChars_ten_toDigits

/-- The number that a literal stands for, up to its sign. -/
def DecimalLiteral.value (literal : DecimalLiteral) : ℚ := literal.digits * 10 ^ literal.exponent

/-! ## The parts of a decimal -/

/-- A text that is that of well-formed parts, which stand for a number. -/
def Spells (text : List Char) (negative : Bool) (p : ℚ) : Prop :=
  ∃ parts : NumberParts, parts.WellFormed ∧ parts.negative = negative ∧
    parts.chars = signChars negative ++ text ∧ parts.literal.value = p

theorem areDigits_zero : AreDigits ['0'] :=
  ⟨List.cons_ne_nil _ _, List.forall_mem_singleton.mpr rfl⟩

/-- Zeros are digits, wherever they stand. -/
theorem areDigits_append_zeros {digits : List Char} (h : AreDigits digits) (n : Nat) :
    AreDigits (digits ++ List.replicate n '0') := by
  refine ⟨List.append_ne_nil_of_left_ne_nil h.1 _, fun c hc => ?_⟩
  rcases List.mem_append.mp hc with hc | hc
  · exact h.2 c hc
  · rw [List.eq_of_mem_replicate hc]
    rfl

theorem areDigits_zeros_append {digits : List Char} (h : AreDigits digits) (n : Nat) :
    AreDigits (List.replicate n '0' ++ digits) := by
  refine ⟨List.append_ne_nil_of_right_ne_nil _ h.1, fun c hc => ?_⟩
  rcases List.mem_append.mp hc with hc | hc
  · rw [List.eq_of_mem_replicate hc]
    rfl
  · exact h.2 c hc

/-- Digits on both sides of a point. -/
theorem spells_pointed {front back : List Char} (hfront : AreDigits front)
    (hleading : front.head? ≠ some '0' ∨ front.length = 1) (hback : AreDigits back)
    (negative : Bool) : Spells (front ++ '.' :: back) negative
      (digitsValue (front ++ back) * 10 ^ (-(back.length : Int))) := by
  refine ⟨⟨negative, front, some back, none⟩, ⟨hfront, hleading, ?_, nofun⟩, rfl, ?_, ?_⟩
  · rintro _ ⟨⟩
    exact hback
  · show signChars negative ++ (front ++ ('.' :: back ++ [])) = _
    rw [List.append_nil]
  · show (digitsValue (front ++ back) : ℚ) * 10 ^ ((0 : Int) - back.length) = _
    rw [zero_sub]

/-- A digit, perhaps digits behind a point, and a power of ten. -/
theorem spells_powered {first : Char} {fraction : Option (List Char)}
    (hfirst : first.isDigit = true) (hfraction : ∀ digits ∈ fraction, AreDigits digits) (e : Int)
    (negative : Bool) : Spells (first :: (fractionChars fraction ++
      exponentChars (some (decide (e < 0), Nat.toDigits 10 e.natAbs)))) negative
      (digitsValue (first :: fraction.getD []) * 10 ^ (e - ((fraction.getD []).length : Int))) := by
  have hpower : digitsValue (Nat.toDigits 10 e.natAbs) = e.natAbs :=
    Nat.ofDigitChars_ten_toDigits
  refine ⟨⟨negative, [first], fraction, some (decide (e < 0), Nat.toDigits 10 e.natAbs)⟩,
    ⟨⟨List.cons_ne_nil _ _, List.forall_mem_singleton.mpr hfirst⟩, .inr rfl, hfraction, ?_⟩,
    rfl, rfl, ?_⟩
  · rintro _ ⟨⟩
    exact areDigits_toDigits _
  · by_cases hneg : e < 0
    · rw [decide_eq_true hneg]
      show (digitsValue (first :: fraction.getD []) : ℚ) *
        10 ^ (-((digitsValue (Nat.toDigits 10 e.natAbs) : Nat) : Int) -
          (fraction.getD []).length) = _
      rw [hpower, Int.ofNat_natAbs_of_nonpos hneg.le, neg_neg]
    · rw [decide_eq_false hneg]
      show (digitsValue (first :: fraction.getD []) : ℚ) *
        10 ^ (((digitsValue (Nat.toDigits 10 e.natAbs) : Nat) : Int) -
          (fraction.getD []).length) = _
      rw [hpower, Int.natAbs_of_nonneg (not_lt.mp hneg)]

namespace DecimalStyle

variable {style : DecimalStyle} {d : Decimal}

/-- Digits, zeros up to the point, and a zero behind it. -/
theorem spells_whole (hsuffix : style.wholeSuffix = ".0") (hd : 0 < d.digits)
    (he : 0 ≤ d.exponent) (negative : Bool) :
    Spells (style.writePositional d).toList negative d.value := by
  obtain ⟨e, he'⟩ := Int.eq_ofNat_of_zero_le he
  have hdigits : AreDigits d.digitChars := areDigits_toDigits _
  have hhead : (d.digitChars ++ List.replicate e '0').head? ≠ some '0' := by
    rw [List.head?_append_of_ne_nil _ hdigits.1]
    exact NumberParts.head?_toDigits hd
  have htext : (style.writePositional d).toList =
      d.digitChars ++ List.replicate e '0' ++ '.' :: ['0'] := by
    unfold writePositional
    dsimp only
    rw [if_pos he, hsuffix, String.toList_append, String.toList_ofList, he']
    rfl
  have hvalue : (digitsValue (d.digitChars ++ List.replicate e '0' ++ ['0']) : ℚ) *
      10 ^ (-(1 : Int)) = d.value := by
    unfold Decimal.value
    rw [digitsValue_append, digitsValue_append, digitsValue_zeros, List.length_replicate,
      d.digitsValue_digitChars, he', zpow_natCast]
    show ((10 ^ 1 * (10 ^ e * d.digits + 0) + 0 : Nat) : ℚ) * 10 ^ (-1 : Int) = _
    push_cast
    ring
  rw [htext, ← hvalue]
  exact spells_pointed (areDigits_append_zeros hdigits e) (.inl hhead)
    areDigits_zero negative

/-- The digits with the point between two of them. -/
theorem spells_mixed (hd : 0 < d.digits) (he : d.exponent < 0)
    (hplaces : (-d.exponent).toNat < d.digitChars.length) (negative : Bool) :
    Spells (style.writePositional d).toList negative d.value := by
  have hdigits : AreDigits d.digitChars := areDigits_toDigits _
  have htext : (style.writePositional d).toList =
      d.digitChars.take (d.digitChars.length - (-d.exponent).toNat) ++
        '.' :: d.digitChars.drop (d.digitChars.length - (-d.exponent).toNat) := by
    unfold writePositional
    dsimp only
    rw [if_neg (by omega), if_pos hplaces, String.toList_ofList]
  rw [htext]
  generalize hwhole : d.digitChars.length - (-d.exponent).toNat = whole
  have hsplit := List.take_append_drop whole d.digitChars
  have hback : ((d.digitChars.drop whole).length : Int) = -d.exponent := by
    rw [List.length_drop]
    omega
  have hfront : d.digitChars.take whole ≠ [] := by
    rw [ne_eq, ← List.length_eq_zero_iff, List.length_take]
    omega
  have hhead : (d.digitChars.take whole).head? ≠ some '0' := by
    have hall : d.digitChars.head? ≠ some '0' := NumberParts.head?_toDigits hd
    rwa [← hsplit, List.head?_append_of_ne_nil _ hfront] at hall
  have hback' : d.digitChars.drop whole ≠ [] := by
    rw [ne_eq, ← List.length_eq_zero_iff]
    omega
  have hspells := spells_pointed
    ⟨hfront, fun c hc => hdigits.2 c (List.mem_of_mem_take hc)⟩ (.inl hhead)
    ⟨hback', fun c hc => hdigits.2 c (List.mem_of_mem_drop hc)⟩ negative
  rwa [hsplit, hback, neg_neg, d.digitsValue_digitChars] at hspells

/-- Zeros behind the point and the digits behind them. -/
theorem spells_small (he : d.exponent < 0)
    (hplaces : d.digitChars.length ≤ (-d.exponent).toNat) (negative : Bool) :
    Spells (style.writePositional d).toList negative d.value := by
  have hdigits : AreDigits d.digitChars := areDigits_toDigits _
  have htext : (style.writePositional d).toList = ['0'] ++ '.' ::
      (List.replicate ((-d.exponent).toNat - d.digitChars.length) '0' ++ d.digitChars) := by
    unfold writePositional
    dsimp only
    rw [if_neg (by omega), if_neg (by omega), String.toList_ofList]
    rfl
  rw [htext]
  generalize hzeros : (-d.exponent).toNat - d.digitChars.length = zeros
  have hvalue : digitsValue (['0'] ++ (List.replicate zeros '0' ++ d.digitChars)) = d.digits := by
    rw [digitsValue_append, digitsValue_append, digitsValue_zeros, d.digitsValue_digitChars]
    show 10 ^ _ * 0 + (10 ^ _ * 0 + d.digits) = _
    rw [Nat.mul_zero, Nat.mul_zero, Nat.zero_add, Nat.zero_add]
  have hback : ((List.replicate zeros '0' ++ d.digitChars).length : Int) = -d.exponent := by
    rw [List.length_append, List.length_replicate]
    omega
  have hspells := spells_pointed areDigits_zero (.inr rfl) (areDigits_zeros_append hdigits zeros)
    negative
  rwa [hvalue, hback, neg_neg] at hspells

/-- One digit before the point, the rest behind it, and the power of ten. -/
theorem spells_scientific (d : Decimal) (negative : Bool) :
    Spells d.scientific.toList negative d.value := by
  obtain ⟨hne, hdigits⟩ : AreDigits d.digitChars := areDigits_toDigits _
  have hvalue := d.digitsValue_digitChars
  have hexponent : d.leadingExponent = d.exponent + (d.digitChars.length : Int) - 1 := rfl
  have hsign : (if d.leadingExponent < 0 then "-" else "+").toList =
      [if decide (d.leadingExponent < 0) then '-' else '+'] := by
    by_cases hneg : d.leadingExponent < 0
    · simp [hneg]
    · simp [hneg]
  have htext : ∀ mantissa : List Char, (String.ofList mantissa ++ "e" ++
      (if d.leadingExponent < 0 then "-" else "+") ++ toString d.leadingExponent.natAbs).toList =
      mantissa ++ exponentChars
        (some (decide (d.leadingExponent < 0), Nat.toDigits 10 d.leadingExponent.natAbs)) :=
    fun mantissa => by
      simp only [String.toList_append, String.toList_ofList, hsign,
        Nat.toString_eq_ofList_toDigits, List.append_assoc]
      rfl
  unfold Decimal.scientific Decimal.value
  dsimp only
  rw [htext]
  generalize d.leadingExponent = e at hexponent ⊢
  rw [← hvalue]
  generalize d.digitChars = digits at hne hdigits hexponent ⊢
  cases digits with
  | nil => exact absurd rfl hne
  | cons first rest =>
    have hfirst := hdigits first List.mem_cons_self
    cases rest with
    | nil =>
      have he : e - (((none : Option (List Char)).getD []).length : Int) = d.exponent := by
        rw [hexponent]
        show d.exponent + 1 - 1 - 0 = d.exponent
        ring
      have hfraction : ∀ digits ∈ (none : Option (List Char)), AreDigits digits := nofun
      have hspells := spells_powered hfirst hfraction e negative
      rwa [he] at hspells
    | cons second rest =>
      have he : e - (((some (second :: rest)).getD []).length : Int) = d.exponent := by
        rw [hexponent]
        show d.exponent + ((rest.length + 1 + 1 : Nat) : Int) - 1 -
          ((rest.length + 1 : Nat) : Int) = _
        push_cast
        ring
      have hfraction : ∀ digits ∈ some (second :: rest), AreDigits digits := by
        rintro _ ⟨⟩
        exact ⟨List.cons_ne_nil _ _, fun c hc => hdigits c (List.mem_cons_of_mem _ hc)⟩
      have hspells := spells_powered hfirst hfraction e negative
      rwa [he] at hspells

/-- The text of a decimal stands for it, whichever way it is laid out. -/
theorem spells_write (hsuffix : style.wholeSuffix = ".0") (hd : 0 < d.digits) (negative : Bool) :
    Spells (style.write d).toList negative d.value := by
  unfold write
  split
  · rcases le_or_gt 0 d.exponent with he | he
    · exact spells_whole hsuffix hd he negative
    · rcases Nat.lt_or_ge (-d.exponent).toNat d.digitChars.length with hplaces | hplaces
      · exact spells_mixed hd he hplaces negative
      · exact spells_small he hplaces negative
  · exact spells_scientific d negative

end DecimalStyle

/-! ## Reading -/

/-- The digits of a number and its size. -/
theorem toDigits_bounds {n : Nat} (hn : 0 < n) :
    10 ^ ((Nat.toDigits 10 n).length - 1) ≤ n ∧ n < 10 ^ (Nat.toDigits 10 n).length := by
  have hpos : 0 < (Nat.toDigits 10 n).length := Nat.length_toDigits_pos
  constructor
  · rcases Nat.eq_zero_or_pos ((Nat.toDigits 10 n).length - 1) with hzero | hmore
    · rw [hzero]
      exact hn
    · by_contra hlt
      have hle := (Nat.length_toDigits_le_iff (by decide) hmore).mpr (not_le.mp hlt)
      omega
  · exact (Nat.length_toDigits_le_iff (by decide) hpos).mp le_rfl

/-- What rounds to a finite double is neither too large nor too small to be read. -/
theorem RoundsTo.bounds {p : ℚ} {m : Nat} {e : Int} (h : RoundsTo p m e) (hfits : Fits m e)
    (hm : 0 < m) (he : e ≤ 971) : 10 ^ (-324 : Int) ≤ p ∧ p < 10 ^ (309 : Int) := by
  have hstep : (0 : ℚ) < 2 ^ e := by positivity
  have hone : (1 : ℚ) ≤ m := by exact_mod_cast hm
  have hmost : (m : ℚ) + 1 ≤ 2 ^ 53 := by exact_mod_cast hfits.lt
  have hlow : (2 : ℚ) ^ (-1 : Int) ≤ p / 2 ^ e := by
    rw [zpow_neg_one]
    linarith [h.low]
  have hhigh : p / 2 ^ e < (2 : ℚ) ^ (53 : Int) := by
    rw [zpow_ofNat]
    linarith [h.high]
  have htiny : (10 : ℚ) ^ (-324 : Int) ≤ 2 ^ (-1075 : Int) := by
    rw [zpow_neg, zpow_neg, zpow_ofNat, zpow_ofNat]
    exact inv_anti₀ (by positivity) (two_pow_le_ten_pow (by decide))
  have hhuge : (2 : ℚ) ^ (1024 : Int) ≤ 10 ^ (309 : Int) := by
    rw [zpow_ofNat, zpow_ofNat]
    exact two_pow_le_ten_pow (by decide)
  rw [le_div_iff₀ hstep, ← zpow_add₀ two_ne_zero] at hlow
  rw [div_lt_iff₀ hstep, ← zpow_add₀ two_ne_zero] at hhigh
  have hleast := hfits.least
  constructor
  · calc (10 : ℚ) ^ (-324 : Int) ≤ 2 ^ (-1075 : Int) := htiny
      _ ≤ 2 ^ (-1 + e) := zpow_le_zpow_right₀ one_le_two (by omega)
      _ ≤ p := hlow
  · calc p < 2 ^ (53 + e) := hhigh
      _ ≤ 2 ^ (1024 : Int) := zpow_le_zpow_right₀ one_le_two (by omega)
      _ ≤ 10 ^ (309 : Int) := hhuge

namespace DecimalLiteral

/-- The power of ten of the leading digit. -/
theorem value_bounds (literal : DecimalLiteral) (h : 0 < literal.value) :
    10 ^ (literal.exponent + ((Nat.toDigits 10 literal.digits).length : Int) - 1) ≤ literal.value ∧
      literal.value <
        10 ^ (literal.exponent + ((Nat.toDigits 10 literal.digits).length : Int) - 1 + 1) := by
  have hpower : (0 : ℚ) < 10 ^ literal.exponent := by positivity
  have hdigits : 0 < literal.digits := by
    exact_mod_cast (mul_pos_iff_of_pos_right hpower).mp h
  obtain ⟨hlow, hhigh⟩ := toDigits_bounds hdigits
  have hpos : 0 < (Nat.toDigits 10 literal.digits).length := Nat.length_toDigits_pos
  generalize (Nat.toDigits 10 literal.digits).length = places at *
  have hten : (10 : ℚ) ≠ 0 := by norm_num
  have hsplit : literal.exponent + (places : Int) - 1 = ((places - 1 : Nat) : Int) +
    literal.exponent := by omega
  have hsplit' : literal.exponent + (places : Int) - 1 + 1 = (places : Int) + literal.exponent := by
    ring
  rw [hsplit', hsplit, zpow_add₀ hten, zpow_add₀ hten, zpow_natCast, zpow_natCast]
  constructor
  · exact mul_le_mul_of_nonneg_right (by exact_mod_cast hlow) hpower.le
  · exact mul_lt_mul_of_pos_right (by exact_mod_cast hhigh) hpower

/-- A literal as a quotient of whole numbers. -/
theorem quotient_eq (literal : DecimalLiteral) :
    ((literal.digits * Nat.pow 10 literal.exponent.toNat : Nat) : ℚ) /
      (Nat.pow 10 (-literal.exponent).toNat : Nat) = literal.value := by
  show ((literal.digits * 10 ^ literal.exponent.toNat : Nat) : ℚ) /
    ((10 ^ (-literal.exponent).toNat : Nat) : ℚ) = literal.digits * 10 ^ literal.exponent
  push_cast
  rw [← zpow_mul_toNat (by norm_num : (10 : ℚ) ≠ 0), ← mul_assoc, mul_div_cancel_right₀]
  positivity

/-- A literal that rounds to a double is read as this double. -/
theorem toBinary64_eq {literal : DecimalLiteral} {x : Binary64}
    (hsign : literal.negative = x.negative) (hfull : double.exponentField x.bits.toNat ≠ 2047)
    (hzero : x.isZero = false) (h : RoundsTo literal.value (double.significand x.bits.toNat)
      (double.quantum x.bits.toNat)) : literal.toBinary64 = x := by
  obtain ⟨hpos, -⟩ := Binary64.unpacked_of_finite hfull hzero
  have hvalue := h.pos hpos
  obtain ⟨hlow, hhigh⟩ := h.bounds x.fits hpos (Binary64.quantum_le hfull)
  obtain ⟨hleast, hgreatest⟩ := literal.value_bounds hvalue
  have hten : (1 : ℚ) < 10 := by norm_num
  have hsmall := (zpow_lt_zpow_iff_right₀ hten).mp (hlow.trans_lt hgreatest)
  have hlarge := (zpow_lt_zpow_iff_right₀ hten).mp (hleast.trans_lt hhigh)
  have hdigits : literal.digits ≠ 0 := fun hdigits => by
    rw [value, hdigits, Nat.cast_zero, zero_mul] at hvalue
    exact hvalue.false
  unfold toBinary64
  dsimp only
  rw [if_neg (by omega), if_neg (by omega), hsign]
  refine Binary64.ofQuotient_eq hfull hzero (Nat.pow_pos (by decide)) ?_
  rwa [literal.quotient_eq]

end DecimalLiteral

namespace Binary64

variable {x : Binary64}

/-- A number that is neither infinite nor a NaN. -/
def IsFinite (x : Binary64) : Prop := x.isNaN = false ∧ x.isInfinite = false

instance : DecidablePred IsFinite := fun _ => inferInstanceAs (Decidable (_ ∧ _))

theorem IsFinite.not_full (h : x.IsFinite) : double.exponentField x.bits.toNat ≠ 2047 := by
  rw [ne_eq, exponentField_eq_full_iff, h.1, h.2]
  exact Bool.false_ne_true

/-- The sign of a double and its text without the sign. -/
theorem IsFinite.toJson_eq (h : x.IsFinite) : (toJson x : Json) = .number (String.ofList
    (signChars x.negative ++ (if x.isZero then "0.0" else
      DecimalStyle.double.write (double.shortest .toEven x.bits.toNat)).toList)) := by
  have hliteral : x.literal? = some (DecimalStyle.double.writeWord .double x.bits.toNat) := by
    unfold literal?
    rw [h.1, h.2]
    rfl
  have hsign : (if double.negative x.bits.toNat then "-" else "").toList =
      signChars x.negative := by
    show (if x.negative then "-" else "").toList = _
    cases x.negative <;> rfl
  have hwrite : DecimalStyle.double.writeWord .double x.bits.toNat = String.ofList
      (signChars x.negative ++ (if x.isZero then "0.0" else
        DecimalStyle.double.write (double.shortest .toEven x.bits.toNat)).toList) := by
    rw [← hsign, ← String.toList_append, String.ofList_toList]
    unfold DecimalStyle.writeWord
    show (if x.isZero then _ else _) = _
    cases x.isZero with
    | true =>
      show _ ++ "0" ++ ".0" = _
      rw [String.append_assoc]
      rfl
    | false => rfl
  simp only [toJson, hliteral, hwrite]

/-- The text of a finite double is that of parts which are read as the double. -/
theorem IsFinite.exists_parts (h : x.IsFinite) :
    ∃ parts : NumberParts, parts.WellFormed ∧
      (toJson x : Json) = .number (String.ofList parts.chars) ∧ parts.literal.toBinary64 = x := by
  rw [h.toJson_eq]
  cases hzero : x.isZero with
  | true =>
    refine ⟨⟨x.negative, ['0'], some ['0'], none⟩, ⟨areDigits_zero, .inr rfl, ?_, nofun⟩, ?_, ?_⟩
    · rintro _ ⟨⟩
      exact areDigits_zero
    · rw [if_pos rfl]
      rfl
    · exact ofQuotient_zero hzero
  | false =>
    have hrounds := shortest_roundsTo .toEven h.not_full hzero
    obtain ⟨hpos, -⟩ := unpacked_of_finite h.not_full hzero
    have hdigits : 0 < (double.shortest .toEven x.bits.toNat).digits := by
      have hpower : (0 : ℚ) < 10 ^ (double.shortest .toEven x.bits.toNat).exponent := by positivity
      exact_mod_cast (mul_pos_iff_of_pos_right hpower).mp (hrounds.pos hpos)
    obtain ⟨parts, hparts, hsign, hchars, hvalue⟩ : Spells (DecimalStyle.double.write
        (double.shortest .toEven x.bits.toNat)).toList x.negative _ :=
      DecimalStyle.spells_write rfl hdigits x.negative
    refine ⟨parts, hparts, ?_, ?_⟩
    · rw [hchars]
      rfl
    · exact DecimalLiteral.toBinary64_eq hsign h.not_full hzero (hvalue ▸ hrounds)

/-- **A finite double is read back from its text.** -/
theorem IsFinite.ofJson?_toJson (h : x.IsFinite) : ofJson? (toJson x) = some x := by
  obtain ⟨parts, hparts, hform, hread⟩ := h.exists_parts
  rw [hform]
  show ((NumberParts.ofChars? (String.ofList parts.chars).toList).map _).filter _ = some x
  rw [String.toList_ofList, hparts.ofChars?_chars, Option.map_some, hread, Option.filter_some,
    if_pos (by rw [h.2]; rfl)]

end Binary64

end SparseDatasets
