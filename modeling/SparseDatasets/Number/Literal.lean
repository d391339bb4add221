import SparseDatasets.Number.Binary

/-!
# Reading numbers

A written number is first taken apart into its digits and a power of ten, and only then rounded,
so that reading never rounds twice.

- `DecimalLiteral`: a sign, all digits as one number, and the power of ten of the last of them.
- `DecimalLiteral.toBinary64`: the nearest double; what is too large becomes infinite.
- `NumberParts.ofChars?`: the grammar of JSON numbers, which asks for digits on both sides of a
  point and refuses leading zeros.
- `Binary64.ofArgument?`, `natOfArgument?`: the more lenient grammar of numbers given as command
  line arguments.
-/

namespace SparseDatasets

/-- The number of a run of decimal digits. -/
def digitsValue (digits : List Char) : Nat :=
  digits.foldl (fun n c => 10 * n + (c.toNat - '0'.toNat)) 0

/-- The number `digits * 10 ^ exponent`, negated if `negative`. -/
structure DecimalLiteral where
  negative : Bool
  digits : Nat
  exponent : Int

namespace DecimalLiteral

/-- The double nearest to a literal. A leading digit above `10 ^ 310` is infinite and one below
`10 ^ -400` is zero, so that no huge power is ever raised. -/
def toBinary64 (literal : DecimalLiteral) : Binary64 :=
  let leading : Int := literal.exponent + ((Nat.toDigits 10 literal.digits).length : Int) - 1
  if literal.digits = 0 ∨ leading < -400 then .ofQuotient literal.negative 0 1
  else if 310 < leading then .ofQuotient literal.negative (.pow 10 310) 1
  else .ofQuotient literal.negative
    (literal.digits * .pow 10 literal.exponent.toNat) (.pow 10 (-literal.exponent).toNat)

end DecimalLiteral

/-- A number taken apart: digits before the point, digits behind it, and the exponent with its
sign. -/
structure NumberParts where
  negative : Bool
  whole : List Char
  fraction : Option (List Char)
  exponent : Option (Bool × List Char)

namespace NumberParts

/-- Takes an exponent off the front: the letter, a sign and at least one digit. -/
def takeExponent? : List Char → Option (Option (Bool × List Char))
  | [] => some none
  | letter :: rest =>
    if letter = 'e' ∨ letter = 'E' then
      let (isNegative, digits) := match rest with
        | '-' :: digits => (true, digits)
        | '+' :: digits => (false, digits)
        | digits => (false, digits)
      if digits ≠ [] ∧ digits.all Char.isDigit then some (some (isNegative, digits)) else none
    else none

/-- Takes a sign off the front of a text; a plus is a sign only if `plus`. -/
def takeSign (plus : Bool) : List Char → Bool × List Char
  | '-' :: rest => (true, rest)
  | '+' :: rest => if plus then (false, rest) else (false, '+' :: rest)
  | rest => (false, rest)

/-- The digits behind a point and what follows them; without a point there are none. -/
def takeFraction : List Char → Option (List Char) × List Char
  | '.' :: rest => (some (rest.takeWhile Char.isDigit), rest.dropWhile Char.isDigit)
  | rest => (none, rest)

/-- Splits a text into sign, digits, digits behind the point and exponent, and leaves it to the
grammars below which of them may be empty. -/
def split? (plus : Bool) (text : List Char) : Option NumberParts :=
  let (negative, unsigned) := takeSign plus text
  let (fraction, rest) := takeFraction (unsigned.dropWhile Char.isDigit)
  (takeExponent? rest).map fun exponent =>
    { negative, whole := unsigned.takeWhile Char.isDigit, fraction, exponent }

/-- The grammar of JSON numbers. -/
def ofChars? (text : List Char) : Option NumberParts :=
  (split? false text).filter fun parts =>
    parts.whole ≠ [] && (parts.whole.head? ≠ some '0' || parts.whole.length == 1) &&
      parts.fraction ≠ some []

/-- The number as digits and a power of ten. -/
def literal (parts : NumberParts) : DecimalLiteral :=
  let fraction := parts.fraction.getD []
  let exponent : Int := match parts.exponent with
    | none => 0
    | some (true, digits) => -(digitsValue digits : Int)
    | some (false, digits) => digitsValue digits
  ⟨parts.negative, digitsValue (parts.whole ++ fraction), exponent - fraction.length⟩

/-- The integer a number without point and exponent stands for. A zero with a sign is no
integer: it is the negative zero of the doubles. -/
def integer? (parts : NumberParts) : Option Int :=
  match parts.fraction, parts.exponent with
  | none, none =>
    let value : Int := digitsValue parts.whole
    if parts.negative then (if value = 0 then none else some (-value)) else some value
  | _, _ => none

end NumberParts

/-! ## Arguments -/

/-- The names of the numbers that have no digits, in lower case. -/
def Binary64.named? (name : String) : Option Binary64 :=
  if name = "nan" then some .nan
  else if name = "inf" ∨ name = "infinity" then some ⟨BinaryLayout.double.infinity.toUInt64⟩
  else none

/-- Reads a double given as an argument: a sign of either kind, then digits with a point before,
between or behind them and perhaps an exponent, or the name of a number in any case. -/
def Binary64.ofArgument? (text : String) : Option Binary64 :=
  let (negative, unsigned) := NumberParts.takeSign true text.toList
  match Binary64.named? (String.ofList (unsigned.map Char.toLower)) with
  | some x => some (if negative then ⟨x.bits ||| 0x8000000000000000⟩ else x)
  | none =>
    (NumberParts.split? true text.toList).bind fun parts =>
      if parts.whole = [] ∧ parts.fraction.getD [] = [] then none
      else some parts.literal.toBinary64

/-- Reads a natural number below `2 ^ 64` given as an argument, perhaps after a plus. -/
def natOfArgument? (text : String) : Option Nat :=
  let digits := match text.toList with
    | '+' :: rest => rest
    | rest => rest
  if digits ≠ [] ∧ digits.all Char.isDigit ∧ digitsValue digits < UInt64.size then
    some (digitsValue digits)
  else none

end SparseDatasets
