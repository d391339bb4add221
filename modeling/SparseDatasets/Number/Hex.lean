/-!
# Digits of base sixteen

- `hexDigit`: a digit below sixteen, in lower case.
- `hexValue?`: the value of a digit of either case.
-/

namespace SparseDatasets

/-- A digit of base sixteen in lower case. -/
def hexDigit (n : Nat) : Char := "0123456789abcdef".toList.getD n '0'

/-- The value of a digit of base sixteen, in either case. -/
def hexValue? (c : Char) : Option Nat :=
  if c.isDigit then some (c.toNat - '0'.toNat)
  else if 'a' ≤ c ∧ c ≤ 'f' then some (c.toNat - 'a'.toNat + 10)
  else if 'A' ≤ c ∧ c ≤ 'F' then some (c.toNat - 'A'.toNat + 10)
  else none

end SparseDatasets
