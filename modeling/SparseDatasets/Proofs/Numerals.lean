import Mathlib.Data.List.Basic
import Mathlib.Data.List.TakeWhile
import SparseDatasets.Json.Form

/-!
# Written numbers

A number is taken off a text as the longest run of characters that numbers are
made of, so what is written for it must be such a run and nothing else. The
grammar sees to that. Integers are written in their decimal digits, behind a sign
if they are negative, and these are read back from any range that holds them.

- `NumberParts.isNumeric_of_mem`: the characters of a number.
- `NumberParts.chars`: the text of a number taken apart.
- `NumberParts.WellFormed.ofChars?_chars`: the grammar takes it apart again.
- `NumberParts.ofChars?_toDigits`: the digits of a natural number, perhaps behind a sign.
- `Json.int?_ofInt`: **an integer is read back from its range**, and `Json.natBelow?_ofInt` a
  natural number below its limit.
-/

namespace SparseDatasets

namespace NumberParts

open Token (isNumeric)

/-! ## The characters of a number -/

theorem isNumeric_of_isDigit {c : Char} (h : c.isDigit = true) : isNumeric c = true := by
  simp [isNumeric, h]

theorem isNumeric_of_all {digits : List Char} (h : digits.all Char.isDigit = true) :
    ∀ c ∈ digits, isNumeric c = true := fun c hc =>
  isNumeric_of_isDigit (List.all_eq_true.mp h c hc)

/-- What is left to the exponent is numeric if it is one. -/
theorem isNumeric_of_takeExponent? {text : List Char} {exponent : Option (Bool × List Char)}
    (h : takeExponent? text = some exponent) : ∀ c ∈ text, isNumeric c = true := by
  unfold takeExponent? at h
  split at h
  · exact fun c hc => absurd hc List.not_mem_nil
  · rename_i letter rest
    split at h
    · rename_i hletter
      have hhead : isNumeric letter = true := by rcases hletter with rfl | rfl <;> rfl
      refine List.forall_mem_cons.mpr ⟨hhead, ?_⟩
      dsimp only at h
      split at h <;> rw [Option.ite_none_right_eq_some] at h
      · exact List.forall_mem_cons.mpr ⟨rfl, isNumeric_of_all h.1.2⟩
      · exact List.forall_mem_cons.mpr ⟨rfl, isNumeric_of_all h.1.2⟩
      · exact isNumeric_of_all h.1.2
    · cases h

/-- The digits behind a point are numeric, and so is the point. -/
theorem isNumeric_of_takeFraction {text : List Char}
    (h : ∀ c ∈ (takeFraction text).2, isNumeric c = true) : ∀ c ∈ text, isNumeric c = true := by
  unfold takeFraction at h
  split at h
  · rename_i rest
    refine List.forall_mem_cons.mpr ⟨rfl, fun c hc => ?_⟩
    rw [← List.takeWhile_append_dropWhile (p := Char.isDigit) (l := rest), List.mem_append] at hc
    rcases hc with hc | hc
    · exact isNumeric_of_isDigit (List.mem_takeWhile_imp hc)
    · exact h c hc
  · exact h

theorem isNumeric_of_takeSign {text : List Char}
    (h : ∀ c ∈ (takeSign false text).2, isNumeric c = true) : ∀ c ∈ text, isNumeric c = true := by
  unfold takeSign at h
  split at h
  · exact List.forall_mem_cons.mpr ⟨rfl, h⟩
  · exact h
  · exact h

/-- A number is made of the characters that numbers are made of. -/
theorem isNumeric_of_mem {text : List Char} (h : (ofChars? text).isSome = true) :
    ∀ c ∈ text, isNumeric c = true := by
  obtain ⟨parts, hparts⟩ := Option.isSome_iff_exists.mp h
  obtain ⟨hsplit, -⟩ := Option.filter_eq_some_iff.mp hparts
  obtain ⟨exponent, hexponent, -⟩ := Option.map_eq_some_iff.mp hsplit
  refine isNumeric_of_takeSign fun c hc => ?_
  rw [← List.takeWhile_append_dropWhile (p := Char.isDigit) (l := (takeSign false text).2),
    List.mem_append] at hc
  rcases hc with hc | hc
  · exact isNumeric_of_isDigit (List.mem_takeWhile_imp hc)
  · exact isNumeric_of_takeFraction (isNumeric_of_takeExponent? hexponent) c hc

/-- A number has a digit. -/
theorem ne_nil_of_isSome {text : List Char} (h : (ofChars? text).isSome = true) : text ≠ [] := by
  rintro rfl
  cases h

/-! ## The text of a number taken apart -/

/-- The point and the digits behind it. -/
def fractionChars : Option (List Char) → List Char
  | none => []
  | some digits => '.' :: digits

/-- The exponent with its sign, which is always written. -/
def exponentChars : Option (Bool × List Char) → List Char
  | none => []
  | some (negative, digits) => 'e' :: (if negative then '-' else '+') :: digits

def signChars (negative : Bool) : List Char := if negative then ['-'] else []

/-- The text of a number taken apart. -/
def chars (parts : NumberParts) : List Char :=
  signChars parts.negative ++
    (parts.whole ++ (fractionChars parts.fraction ++ exponentChars parts.exponent))

/-- A run of digits that is not empty. -/
def AreDigits (digits : List Char) : Prop := digits ≠ [] ∧ ∀ c ∈ digits, c.isDigit = true

/-- Parts with digits wherever there must be some, and no zero in front of other digits. -/
structure WellFormed (parts : NumberParts) : Prop where
  whole : AreDigits parts.whole
  leading : parts.whole.head? ≠ some '0' ∨ parts.whole.length = 1
  fraction : ∀ digits ∈ parts.fraction, AreDigits digits
  exponent : ∀ power ∈ parts.exponent, AreDigits power.2

/-- Nothing follows that would belong to the digits. -/
def NoDigit (rest : List Char) : Prop := ∀ c ∈ rest.head?, c.isDigit = false

theorem takeWhile_digits {digits rest : List Char} (h : ∀ c ∈ digits, c.isDigit = true)
    (hrest : NoDigit rest) : (digits ++ rest).takeWhile Char.isDigit = digits := by
  rw [List.takeWhile_append_of_pos h]
  cases rest with
  | nil => exact List.append_nil digits
  | cons c rest =>
    rw [List.takeWhile_cons_of_neg (by simp [hrest c rfl]), List.append_nil]

theorem dropWhile_digits {digits rest : List Char} (h : ∀ c ∈ digits, c.isDigit = true)
    (hrest : NoDigit rest) : (digits ++ rest).dropWhile Char.isDigit = rest := by
  rw [List.dropWhile_append_of_pos h]
  cases rest with
  | nil => rfl
  | cons c rest => rw [List.dropWhile_cons_of_neg (by simp [hrest c rfl])]

theorem noDigit_exponentChars (exponent : Option (Bool × List Char)) :
    NoDigit (exponentChars exponent) := by
  intro c hc
  cases exponent with
  | none => cases hc
  | some power => cases hc; rfl

theorem noDigit_fractionChars (fraction : Option (List Char)) {rest : List Char}
    (hrest : NoDigit rest) : NoDigit (fractionChars fraction ++ rest) := by
  cases fraction with
  | none => exact hrest
  | some digits => intro c hc; cases hc; rfl

/-! ## Taking it apart again -/

theorem takeExponent?_exponentChars {exponent : Option (Bool × List Char)}
    (h : ∀ power ∈ exponent, AreDigits power.2) :
    takeExponent? (exponentChars exponent) = some exponent := by
  cases exponent with
  | none => rfl
  | some power =>
    obtain ⟨negative, digits⟩ := power
    obtain ⟨hne, hdigits⟩ := h _ rfl
    have hall : digits.all Char.isDigit = true := List.all_eq_true.mpr hdigits
    cases negative with
    | true =>
      show (if digits ≠ [] ∧ digits.all Char.isDigit = true then some (some (true, digits))
        else none) = _
      rw [if_pos ⟨hne, hall⟩]
    | false =>
      show (if digits ≠ [] ∧ digits.all Char.isDigit = true then some (some (false, digits))
        else none) = _
      rw [if_pos ⟨hne, hall⟩]

theorem takeFraction_fractionChars {fraction : Option (List Char)} {rest : List Char}
    (h : ∀ digits ∈ fraction, AreDigits digits) (hrest : NoDigit rest)
    (hpoint : rest.head? ≠ some '.') :
    takeFraction (fractionChars fraction ++ rest) = (fraction, rest) := by
  cases fraction with
  | none =>
    show takeFraction rest = (none, rest)
    unfold takeFraction
    split
    · exact absurd rfl hpoint
    · rfl
  | some digits =>
    obtain ⟨-, hdigits⟩ := h _ rfl
    show (some ((digits ++ rest).takeWhile Char.isDigit),
      (digits ++ rest).dropWhile Char.isDigit) = _
    rw [takeWhile_digits hdigits hrest, dropWhile_digits hdigits hrest]

/-- A digit is no sign. -/
theorem takeSign_of_isDigit {c : Char} (h : c.isDigit = true) (rest : List Char) :
    takeSign false (c :: rest) = (false, c :: rest) := by
  unfold takeSign
  split
  · rename_i heq
    cases heq
    exact absurd h (by decide)
  · rename_i heq
    cases heq
    exact absurd h (by decide)
  · rfl

theorem takeSign_signChars (negative : Bool) {digits rest : List Char} (h : AreDigits digits) :
    takeSign false (signChars negative ++ (digits ++ rest)) = (negative, digits ++ rest) := by
  cases negative with
  | true => rfl
  | false =>
    obtain ⟨hne, hdigits⟩ := h
    cases digits with
    | nil => exact absurd rfl hne
    | cons c digits => exact takeSign_of_isDigit (hdigits c List.mem_cons_self) _

/-- The text of well-formed parts is taken apart into them. -/
theorem WellFormed.ofChars?_chars {parts : NumberParts} (h : parts.WellFormed) :
    ofChars? parts.chars = some parts := by
  obtain ⟨hwhole, hleading, hfraction, hexponent⟩ := h
  have hrest := noDigit_exponentChars parts.exponent
  have htail := noDigit_fractionChars parts.fraction hrest
  have hpoint : (exponentChars parts.exponent).head? ≠ some '.' := by
    cases parts.exponent with
    | none => exact nofun
    | some power => exact fun heq => absurd (Option.some.inj heq) (by decide)
  have hsplit : split? false parts.chars = some parts := by
    unfold split? chars
    rw [takeSign_signChars parts.negative hwhole]
    dsimp only
    rw [takeWhile_digits hwhole.2 htail, dropWhile_digits hwhole.2 htail,
      takeFraction_fractionChars hfraction hrest hpoint]
    dsimp only
    rw [takeExponent?_exponentChars hexponent]
    rfl
  unfold ofChars?
  rw [hsplit, Option.filter_some, if_pos]
  have hfraction' : parts.fraction ≠ some [] := fun hnil => (hfraction [] hnil).1 rfl
  rcases hleading with hleading | hleading
  · simp [hwhole.1, hleading, hfraction']
  · simp [hwhole.1, hleading, hfraction']

/-! ## Decimal digits -/

/-- The digits of a positive number do not start with a zero. -/
theorem head?_toDigits {n : Nat} (hn : 0 < n) : (Nat.toDigits 10 n).head? ≠ some '0' := by
  induction n using Nat.strongRecOn with
  | ind n ih =>
    by_cases hsmall : n < 10
    · rw [Nat.toDigits_of_lt_base hsmall, List.head?_cons, ne_eq, Option.some.injEq,
        Nat.digitChar_eq_zero]
      exact hn.ne'
    · -- the leading digit is that of the number without its last digit
      rw [Nat.toDigits_of_base_le (by decide) (Nat.le_of_not_lt hsmall),
        List.head?_append_of_ne_nil _ Nat.toDigits_ne_nil]
      exact ih (n / 10) (by omega) (by omega)

theorem areDigits_toDigits (n : Nat) : AreDigits (Nat.toDigits 10 n) :=
  ⟨Nat.toDigits_ne_nil, fun _ hc => Nat.isDigit_of_mem_toDigits (by decide) (by decide) hc⟩

/-- The decimal digits of a natural number, perhaps behind a sign, are a number without point and
exponent. -/
theorem ofChars?_toDigits (negative : Bool) (n : Nat) :
    ofChars? (signChars negative ++ Nat.toDigits 10 n) =
      some ⟨negative, Nat.toDigits 10 n, none, none⟩ := by
  have hchars : chars ⟨negative, Nat.toDigits 10 n, none, none⟩ =
      signChars negative ++ Nat.toDigits 10 n :=
    congrArg (signChars negative ++ ·) (List.append_nil _)
  have hleading : (Nat.toDigits 10 n).head? ≠ some '0' ∨ (Nat.toDigits 10 n).length = 1 := by
    rcases Nat.eq_zero_or_pos n with rfl | hn
    · exact .inr rfl
    · exact .inl (head?_toDigits hn)
  have hparts : WellFormed ⟨negative, Nat.toDigits 10 n, none, none⟩ :=
    ⟨areDigits_toDigits n, hleading, nofun, nofun⟩
  rw [← hchars, hparts.ofChars?_chars]

end NumberParts

namespace Json

open NumberParts (signChars)

/-- An integer is written with its sign and the decimal digits of its amount. -/
theorem ofInt_eq (n : Int) : ofInt n =
    .number (String.ofList (signChars (decide (n < 0)) ++ Nat.toDigits 10 n.natAbs)) := by
  unfold ofInt
  rw [String.ofList_append, ← Nat.toString_eq_ofList_toDigits]
  by_cases h : n < 0
  · rw [if_pos h, decide_eq_true h]
    rfl
  · rw [if_neg h, decide_eq_false h]
    exact congrArg Json.number String.empty_append.symm

theorem numberParts?_ofInt (n : Int) : (ofInt n).numberParts? =
    some ⟨decide (n < 0), Nat.toDigits 10 n.natAbs, none, none⟩ := by
  rw [ofInt_eq, numberParts?, String.toList_ofList, NumberParts.ofChars?_toDigits]

/-- An integer is read back from any range that it lies in. -/
theorem int?_ofInt {n least greatest : Int} (hleast : least ≤ n) (hgreatest : n ≤ greatest) :
    (ofInt n).int? least greatest = some n := by
  have hvalue : digitsValue (Nat.toDigits 10 n.natAbs) = n.natAbs :=
    Nat.ofDigitChars_ten_toDigits
  have hinteger : NumberParts.integer? ⟨decide (n < 0), Nat.toDigits 10 n.natAbs, none, none⟩ =
      some n := by
    unfold NumberParts.integer?
    dsimp only
    rw [hvalue]
    by_cases h : n < 0
    · -- a negative integer is not zero, so it is no zero with a sign
      rw [if_pos (decide_eq_true h), if_neg (by omega)]
      exact congrArg some (by omega)
    · rw [if_neg (by simpa using h)]
      exact congrArg some (by omega)
  rw [int?, numberParts?_ofInt, Option.bind_some, hinteger, Option.filter_some, if_pos]
  simp only [decide_eq_true_eq]
  exact ⟨hleast, hgreatest⟩

/-- A natural number is read back below its limit. -/
theorem natBelow?_ofInt {n limit : Nat} (h : n < limit) :
    (ofInt n).natBelow? limit = some n := by
  rw [natBelow?, int?_ofInt (Int.natCast_nonneg n) (by omega), Option.map_some, Int.toNat_natCast]

end Json

end SparseDatasets
