import SparseDatasets.Element
import SparseDatasets.Number.Hex

/-!
# Symbols of a data section

A symbol is written as three header lines and the words of its data. The bytes are taken four at
a time, least significant first, and each word is printed with its most significant byte first; a
last word that is not full is filled up with zeros.

- `wordLines`: the lines of the words of some bytes.
- `Symbol`, `Symbol.lines`: a symbol and its lines.
-/

namespace SparseDatasets

/-! ## Words -/

/-- The two digits of a byte. -/
def byteText (b : UInt8) : List Char := [hexDigit (b.toNat / 16), hexDigit (b.toNat % 16)]

/-- The line of a word whose bytes are given from the least significant one on. -/
def wordLine (a b c d : UInt8) : String :=
  "    .word 0x" ++ String.ofList (byteText d ++ byteText c ++ byteText b ++ byteText a)

/-- The lines of the words of some bytes. -/
def wordLines : List UInt8 → List String
  | [] => []
  | [a] => [wordLine a 0 0 0]
  | [a, b] => [wordLine a b 0 0]
  | [a, b, c] => [wordLine a b c 0]
  | a :: b :: c :: d :: rest => wordLine a b c d :: wordLines rest

/-! ## Symbols -/

/-- A name for some aligned data. -/
structure Symbol where
  name : String
  /-- The alignment, as the assembler takes it. -/
  alignment : String
  bytes : List UInt8

namespace Symbol

/-- The lines of a symbol. -/
def lines (symbol : Symbol) : List String :=
  (".global " ++ symbol.name) :: (".balign " ++ symbol.alignment) :: (symbol.name ++ ":") ::
    wordLines symbol.bytes

/-- A single value of sixty-four bits, aligned to its size. -/
def scalar {α : Type} [LittleEndian α] (name : String) (x : α) : Symbol :=
  ⟨name, "8", LittleEndian.bytes x⟩

/-- An array of values, one behind the other. -/
def array {α : Type} [LittleEndian α] (alignment name : String) (xs : Array α) : Symbol :=
  ⟨name, alignment, xs.toList.flatMap LittleEndian.bytes⟩

end Symbol

end SparseDatasets
