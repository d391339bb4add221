import Mathlib.Data.List.Infix
import SparseDatasets.Emission.Symbol

/-!
# Word lines read back

A word line shows four bytes, the most significant first, in two digits each. Read as a number
of base sixteen it gives the number whose bytes, the least significant first, these four are. So
data made of whole words are read back from their lines, one word from each.

- `natOfBytes`: the number of some bytes, the inverse of `bytesOfNat`.
- `flatMap_injective`: blocks of one length are told apart by what they make together.
- `halves`: the two words of sixty-four bits.
- `wordOfLine?`: the number that a word line shows.
- `leadingWords`: the numbers of the word lines that some lines start with.
- `leadingWords_wordLines`: **the words of some data are read back from their lines.**
-/

namespace SparseDatasets

/-! ## Numbers and their bytes -/

/-- The number of some bytes, the least significant first. -/
def natOfBytes : List UInt8 → Nat
  | [] => 0
  | b :: bytes => b.toNat + 256 * natOfBytes bytes

/-- A number with no more bytes than are taken of it is the number of these. -/
theorem natOfBytes_bytesOfNat {width n : Nat} (h : n < Nat.pow 256 width) :
    natOfBytes (bytesOfNat width n) = n := by
  induction width generalizing n with
  | zero => exact (Nat.lt_one_iff.mp h).symm
  | succ width ih =>
    have hrest : n / 256 < Nat.pow 256 width := Nat.div_lt_of_lt_mul (by rwa [Nat.mul_comm])
    rw [bytesOfNat, natOfBytes, ih hrest, Nat.toUInt8_eq, UInt8.toNat_ofNat']
    omega

/-- Bytes are those of their number. -/
theorem bytesOfNat_natOfBytes (bytes : List UInt8) :
    bytesOfNat bytes.length (natOfBytes bytes) = bytes := by
  induction bytes with
  | nil => rfl
  | cons b bytes ih =>
    have hb : b.toNat < 256 := b.toNat_lt
    have hlow : (b.toNat + 256 * natOfBytes bytes) % 256 = b.toNat := by omega
    have hrest : (b.toNat + 256 * natOfBytes bytes) / 256 = natOfBytes bytes := by omega
    rw [List.length_cons, natOfBytes, bytesOfNat, hlow, hrest, ih, Nat.toUInt8_eq,
      UInt8.ofNat_toNat]

theorem natOfBytes_lt (bytes : List UInt8) : natOfBytes bytes < Nat.pow 256 bytes.length := by
  induction bytes with
  | nil => exact Nat.one_pos
  | cons b bytes ih =>
    have hb : b.toNat < 256 := b.toNat_lt
    show b.toNat + 256 * natOfBytes bytes < Nat.pow 256 bytes.length * 256
    omega

theorem length_bytesOfNat (width n : Nat) : (bytesOfNat width n).length = width := by
  induction width generalizing n with
  | zero => rfl
  | succ width ih => rw [bytesOfNat, List.length_cons, ih]

/-- Blocks of one length, one behind the other, are told apart if there are as many of them. -/
theorem flatMap_injective {α β : Type} {f : α → List β} {width : Nat}
    (hlength : ∀ x, (f x).length = width) (hf : Function.Injective f) {l l' : List α}
    (hcount : l.length = l'.length) (h : l.flatMap f = l'.flatMap f) : l = l' := by
  induction l generalizing l' with
  | nil => exact (List.length_eq_zero_iff.mp hcount.symm).symm
  | cons x l ih =>
    cases l' with
    | nil => cases hcount
    | cons y l' =>
      rw [List.flatMap_cons, List.flatMap_cons] at h
      obtain ⟨hhead, htail⟩ := List.append_inj h ((hlength x).trans (hlength y).symm)
      rw [hf hhead, ih (Nat.succ.inj hcount) htail]

/-- The two words of sixty-four bits, the lower one first. -/
def halves (n : Nat) : List Nat := [n % UInt32.size, n / UInt32.size]

/-- Both halves of sixty-four bits are words. -/
theorem lt_of_mem_halves {n w : Nat} (h : n < UInt64.size) (hw : w ∈ halves n) :
    w < UInt32.size := by
  simp only [halves, List.mem_cons, List.not_mem_nil, or_false, UInt32.size, UInt64.size] at *
  omega

theorem halves_injective {m n : Nat} (h : halves m = halves n) : m = n := by
  simp only [halves, List.cons.injEq, and_true, UInt32.size] at h
  omega

/-- Numbers are told apart by their halves, one pair behind the other. -/
theorem flatMap_halves_injective {l l' : List Nat} (h : l.flatMap halves = l'.flatMap halves) :
    l = l' := by
  have hpair (n : Nat) : (halves n).length = 2 := rfl
  have hlength (l : List Nat) : (l.flatMap halves).length = l.length * 2 := by simp [hpair]
  have hboth := congrArg List.length h
  rw [hlength, hlength] at hboth
  exact flatMap_injective hpair (fun _ _ => halves_injective) (by omega) h

/-- The eight bytes of a number are the bytes of its halves. -/
theorem bytesOfNat_eight (n : Nat) : bytesOfNat 8 n = (halves n).flatMap (bytesOfNat 4) := by
  simp only [halves, bytesOfNat, List.flatMap_cons, List.flatMap_nil, List.cons_append,
    List.nil_append, List.append_nil, List.cons.injEq, and_true, UInt32.size]
  refine ⟨?_, ?_, ?_, ?_, ?_, ?_, ?_, ?_⟩ <;> congr 1 <;> omega

/-! ## Digits -/

theorem hexValue?_hexDigit : ∀ n < 16, hexValue? (hexDigit n) = some n := by decide

theorem hexDigit_ne_newline : ∀ n < 16, hexDigit n ≠ '\n' := by decide

theorem newline_not_mem_byteText (b : UInt8) : '\n' ∉ byteText b := by
  have hb : b.toNat < 256 := b.toNat_lt
  simp only [byteText, List.mem_cons, List.not_mem_nil, or_false, not_or]
  exact ⟨(hexDigit_ne_newline _ (by omega)).symm, (hexDigit_ne_newline _ (by omega)).symm⟩

/-- The number that digits of base sixteen show when others have been read before them. -/
def hexNumber? (n : Nat) (digits : List Char) : Option Nat :=
  digits.foldlM (fun n digit => (hexValue? digit).map (16 * n + ·)) n

/-- The digits of a byte add the byte behind what has been read. -/
theorem hexNumber?_byteText (n : Nat) (b : UInt8) (digits : List Char) :
    hexNumber? n (byteText b ++ digits) = hexNumber? (256 * n + b.toNat) digits := by
  have hb : b.toNat < 256 := b.toNat_lt
  have hvalue : 16 * (16 * n + b.toNat / 16) + b.toNat % 16 = 256 * n + b.toNat := by omega
  simp only [hexNumber?, byteText, List.cons_append, List.nil_append, List.foldlM_cons]
  rw [hexValue?_hexDigit _ (by omega), hexValue?_hexDigit _ (by omega)]
  show hexNumber? (16 * (16 * n + b.toNat / 16) + b.toNat % 16) digits = _
  rw [hvalue]
  rfl

/-! ## Lines -/

/-- The number that a word line shows. -/
def wordOfLine? (line : String) : Option Nat :=
  ("    .word 0x".toList.isPrefixOf? line.toList).bind (hexNumber? 0)

theorem toList_wordLine (a b c d : UInt8) : (wordLine a b c d).toList =
    "    .word 0x".toList ++ (byteText d ++ byteText c ++ byteText b ++ byteText a) := by
  rw [wordLine, String.toList_append]
  exact congrArg (_ ++ ·) String.toList_ofList

/-- A word line shows the number of its bytes. -/
theorem wordOfLine?_wordLine (a b c d : UInt8) :
    wordOfLine? (wordLine a b c d) = some (natOfBytes [a, b, c, d]) := by
  have hprefix : "    .word 0x".toList.isPrefixOf? (wordLine a b c d).toList =
      some (byteText d ++ byteText c ++ byteText b ++ byteText a) := by
    rw [List.isPrefixOf?_eq_some_iff_append_eq, toList_wordLine]
  have hdigits : hexNumber? 0 (byteText d ++ (byteText c ++ (byteText b ++ (byteText a ++ [])))) =
      some (natOfBytes [a, b, c, d]) := by
    rw [hexNumber?_byteText, hexNumber?_byteText, hexNumber?_byteText, hexNumber?_byteText]
    show some _ = some _
    congr 1
    simp only [natOfBytes]
    omega
  rw [wordOfLine?, hprefix, Option.bind_some, ← hdigits]
  simp only [List.append_assoc, List.append_nil]

/-- Only word lines are printed for the bytes of a symbol. -/
theorem mem_wordLines {bytes : List UInt8} {line : String} (h : line ∈ wordLines bytes) :
    ∃ a b c d, line = wordLine a b c d := by
  induction bytes using wordLines.induct with
  | case1 => exact absurd h List.not_mem_nil
  | case2 a => exact ⟨a, 0, 0, 0, List.mem_singleton.mp h⟩
  | case3 a b => exact ⟨a, b, 0, 0, List.mem_singleton.mp h⟩
  | case4 a b c => exact ⟨a, b, c, 0, List.mem_singleton.mp h⟩
  | case5 a b c d rest ih =>
    rcases List.mem_cons.mp h with rfl | h
    · exact ⟨a, b, c, d, rfl⟩
    · exact ih h

theorem newline_not_mem_wordLine (a b c d : UInt8) : '\n' ∉ (wordLine a b c d).toList := by
  have hhead : '\n' ∉ "    .word 0x".toList := by decide
  simp only [toList_wordLine, List.mem_append, hhead, newline_not_mem_byteText, or_self,
    not_false_iff]

/-- The numbers of the word lines that some lines start with. -/
def leadingWords : List String → List Nat
  | [] => []
  | line :: lines =>
    match wordOfLine? line with
    | some word => word :: leadingWords lines
    | none => []

/-- Lines that show words are read before the lines behind them. -/
theorem leadingWords_append {front : List String} {words : List Nat}
    (h : front.map wordOfLine? = words.map some) (lines : List String) :
    leadingWords (front ++ lines) = words ++ leadingWords lines := by
  induction front generalizing words with
  | nil =>
    rw [List.map_eq_nil_iff.mp h.symm]
    rfl
  | cons line front ih =>
    cases words with
    | nil => cases h
    | cons w words =>
      obtain ⟨hline, hfront⟩ := List.cons.inj h
      rw [List.cons_append, List.cons_append, leadingWords, hline, ih hfront]

/-- Each line shows the number of its four bytes. -/
theorem map_wordOfLine?_wordLines {words : List Nat} (h : ∀ w ∈ words, w < UInt32.size) :
    (wordLines (words.flatMap (bytesOfNat 4))).map wordOfLine? = words.map some := by
  induction words with
  | nil => rfl
  | cons w words ih =>
    have hw : natOfBytes (bytesOfNat 4 w) = w := natOfBytes_bytesOfNat (h w List.mem_cons_self)
    rw [List.flatMap_cons, List.map_cons, ← ih fun v hv => h v (List.mem_cons_of_mem _ hv)]
    show (wordLine _ _ _ _ :: wordLines (words.flatMap _)).map wordOfLine? = _
    rw [List.map_cons, wordOfLine?_wordLine]
    exact congrArg (some · :: _) hw

/-- **The words of some data are read back from their lines.** -/
theorem leadingWords_wordLines {words : List Nat} (h : ∀ w ∈ words, w < UInt32.size)
    (lines : List String) :
    leadingWords (wordLines (words.flatMap (bytesOfNat 4)) ++ lines) =
      words ++ leadingWords lines :=
  leadingWords_append (map_wordOfLine?_wordLines h) lines

end SparseDatasets
