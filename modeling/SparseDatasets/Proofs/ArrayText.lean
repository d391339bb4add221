import Mathlib.Data.Option.Basic
import SparseDatasets.Proofs.Element
import SparseDatasets.Proofs.Output
import SparseDatasets.Proofs.Words

/-!
# Arrays read back from their text

The entries of an array are one, two, four or eight bytes wide, so they need not come out as whole
words: the last word is filled up with zeros. The words are read back from their lines all the same,
and what they hold beyond the entries is less than a word of zeros. How many bytes belong to the
entries is told by their number alone, so two arrays of one size and one text have the same entries,
bit for bit. This does not depend on the names: a name may contain newlines and so be no line of its
own, but the word lines stand at the end of the text, and they take as much of it in both.

- `LawfulLittleEndian`: the bytes of a value hold its word, and the word tells the value.
- `InWords`: words that some data fill but for less than a word of zeros.
- `exists_inWords`: the word lines of any data show such words.
- `IsWordLine`: four spaces, the directive and eight digits.
- `wordLines_eq_of_text`: word lines are found at the end of a text.
- `Script.array_reversible`: **the text of an array gives its entries back.**
-/

namespace SparseDatasets

/-! ## Values and their bytes -/

/-- The bytes of a value hold its word whole, and the word tells the value. -/
class LawfulLittleEndian (α : Type) [LittleEndian α] : Prop where
  word_lt : ∀ x : α, LittleEndian.word x < Nat.pow 256 (LittleEndian.width α)
  word_injective : Function.Injective (LittleEndian.word : α → Nat)

instance : LawfulLittleEndian UInt8 := ⟨UInt8.toNat_lt, fun _ _ => UInt8.toNat_inj.mp⟩

instance : LawfulLittleEndian UInt16 := ⟨UInt16.toNat_lt, fun _ _ => UInt16.toNat_inj.mp⟩

instance : LawfulLittleEndian UInt32 := ⟨UInt32.toNat_lt, fun _ _ => UInt32.toNat_inj.mp⟩

instance : LawfulLittleEndian UInt64 := ⟨UInt64.toNat_lt, fun _ _ => UInt64.toNat_inj.mp⟩

instance : LawfulLittleEndian Int32 :=
  ⟨fun x => x.toUInt32.toNat_lt, fun _ _ h => congrArg Int32.ofUInt32 (UInt32.toNat_inj.mp h)⟩

instance : LawfulLittleEndian Int64 :=
  ⟨fun x => x.toUInt64.toNat_lt, fun _ _ h => congrArg Int64.ofUInt64 (UInt64.toNat_inj.mp h)⟩

instance : LawfulLittleEndian Binary32 :=
  ⟨fun x => x.bits.toNat_lt, fun _ _ h => Binary32.bits_inj.mp (UInt32.toNat_inj.mp h)⟩

instance : LawfulLittleEndian Binary64 :=
  ⟨fun x => x.bits.toNat_lt, fun _ _ h => Binary64.bits_inj.mp (UInt64.toNat_inj.mp h)⟩

namespace LittleEndian

variable {α : Type} [LittleEndian α]

theorem length_bytes (x : α) : (bytes x).length = width α := length_bytesOfNat _ _

theorem length_flatMap_bytes (xs : Array α) :
    (xs.toList.flatMap bytes).length = xs.size * width α := by
  simp [length_bytes]

variable [LawfulLittleEndian α]

theorem natOfBytes_bytes (x : α) : natOfBytes (bytes x) = word x :=
  natOfBytes_bytesOfNat (LawfulLittleEndian.word_lt x)

theorem bytes_injective : Function.Injective (bytes : α → List UInt8) := by
  intro x y h
  have hword := congrArg natOfBytes h
  rw [natOfBytes_bytes, natOfBytes_bytes] at hword
  exact LawfulLittleEndian.word_injective hword

end LittleEndian

/-! ## Data in words -/

/-- Words that some data fill but for less than a word of zeros, each least significant byte
first. -/
structure InWords (bytes : List UInt8) (words : List Nat) : Prop where
  lt : ∀ w ∈ words, w < UInt32.size
  bytes_eq : ∃ pad < 4, words.flatMap (bytesOfNat 4) = bytes ++ List.replicate pad 0

theorem natOfBytes_four_lt (a b c d : UInt8) : natOfBytes [a, b, c, d] < UInt32.size := by
  have hlt : natOfBytes [a, b, c, d] < Nat.pow 256 4 := natOfBytes_lt [a, b, c, d]
  exact hlt

namespace InWords

variable {bytes bytes' : List UInt8} {words : List Nat}

theorem nil : InWords [] [] := ⟨by simp, 0, by decide, rfl⟩

/-- Data of less than a word are filled up. -/
theorem single {a b c d : UInt8} (pad : Nat) (hpad : pad < 4)
    (h : [a, b, c, d] = bytes ++ List.replicate pad 0) :
    InWords bytes [natOfBytes [a, b, c, d]] where
  lt w hw := by
    rw [List.mem_singleton.mp hw]
    exact natOfBytes_four_lt a b c d
  bytes_eq := ⟨pad, hpad, by
    rw [List.flatMap_singleton, ← h]
    exact bytesOfNat_natOfBytes [a, b, c, d]⟩

/-- A whole word in front of others. -/
theorem cons (a b c d : UInt8) (h : InWords bytes words) :
    InWords (a :: b :: c :: d :: bytes) (natOfBytes [a, b, c, d] :: words) where
  lt w hw := by
    rcases List.mem_cons.mp hw with rfl | hw
    · exact natOfBytes_four_lt a b c d
    · exact h.lt w hw
  bytes_eq := by
    obtain ⟨pad, hpad, hbytes⟩ := h.bytes_eq
    have hword : bytesOfNat 4 (natOfBytes [a, b, c, d]) = [a, b, c, d] :=
      bytesOfNat_natOfBytes [a, b, c, d]
    exact ⟨pad, hpad, by rw [List.flatMap_cons, hbytes, hword]; rfl⟩

/-- Words tell data of a given length. -/
theorem unique (h : InWords bytes words) (h' : InWords bytes' words)
    (hlength : bytes.length = bytes'.length) : bytes = bytes' := by
  obtain ⟨_, -, hbytes⟩ := h.bytes_eq
  obtain ⟨_, -, hbytes'⟩ := h'.bytes_eq
  exact (List.append_inj (hbytes.symm.trans hbytes') hlength).1

end InWords

/-- The word lines of data show words that the data fill. -/
theorem exists_inWords (bytes : List UInt8) :
    ∃ words, InWords bytes words ∧ (wordLines bytes).map wordOfLine? = words.map some := by
  induction bytes using wordLines.induct with
  | case1 => exact ⟨[], .nil, rfl⟩
  | case2 a =>
    exact ⟨_, .single 3 (by decide) rfl, congrArg ([·]) (wordOfLine?_wordLine a 0 0 0)⟩
  | case3 a b =>
    exact ⟨_, .single 2 (by decide) rfl, congrArg ([·]) (wordOfLine?_wordLine a b 0 0)⟩
  | case4 a b c =>
    exact ⟨_, .single 1 (by decide) rfl, congrArg ([·]) (wordOfLine?_wordLine a b c 0)⟩
  | case5 a b c d rest ih =>
    obtain ⟨words, hwords, hlines⟩ := ih
    refine ⟨_, hwords.cons a b c d, ?_⟩
    rw [wordLines, List.map_cons, hlines, wordOfLine?_wordLine, List.map_cons]

/-- There is a line for each word that is begun. -/
theorem length_wordLines (bytes : List UInt8) :
    (wordLines bytes).length = (bytes.length + 3) / 4 := by
  induction bytes using wordLines.induct with
  | case1 => rfl
  | case2 a | case3 a b | case4 a b c => simp [wordLines]
  | case5 a b c d rest ih =>
    simp only [wordLines, List.length_cons, ih]
    omega

/-! ## The form of a word line -/

/-- Four spaces, the directive and eight digits of base sixteen in lower case. -/
def IsWordLine (line : String) : Prop :=
  ∃ digits : List Char, line = "    .word 0x" ++ String.ofList digits ∧ digits.length = 8 ∧
    ∀ c ∈ digits, c ∈ "0123456789abcdef".toList

theorem hexDigit_mem : ∀ n < 16, hexDigit n ∈ "0123456789abcdef".toList := by decide

theorem mem_digits_of_mem_byteText {b : UInt8} {c : Char} (h : c ∈ byteText b) :
    c ∈ "0123456789abcdef".toList := by
  have hb : b.toNat < 256 := b.toNat_lt
  rcases List.mem_pair.mp h with rfl | rfl <;> exact hexDigit_mem _ (by omega)

theorem isWordLine_wordLine (a b c d : UInt8) : IsWordLine (wordLine a b c d) := by
  refine ⟨_, rfl, rfl, fun digit hdigit => ?_⟩
  simp only [List.mem_append] at hdigit
  rcases hdigit with ((h | h) | h) | h <;> exact mem_digits_of_mem_byteText h

theorem isWordLine_of_mem {bytes : List UInt8} {line : String} (h : line ∈ wordLines bytes) :
    IsWordLine line := by
  obtain ⟨a, b, c, d, rfl⟩ := mem_wordLines h
  exact isWordLine_wordLine a b c d

theorem IsWordLine.length_eq {line : String} (h : IsWordLine line) : line.toList.length = 20 := by
  obtain ⟨digits, rfl, hlength, -⟩ := h
  have hdigits : (String.ofList digits).toList = digits := String.toList_ofList
  rw [String.toList_append, List.length_append, hdigits, hlength]
  rfl

/-! ## Texts that end in word lines -/

theorem length_join_of_isWordLine {lines : List String} (h : ∀ line ∈ lines, IsWordLine line) :
    (String.join (lines.map (· ++ "\n"))).toList.length = 21 * lines.length := by
  induction lines with
  | nil => rfl
  | cons line lines ih =>
    have hrest := ih fun other hother => h other (List.mem_cons_of_mem _ hother)
    have hline : line.toList.length = 20 := (h line List.mem_cons_self).length_eq
    rw [List.map_cons, String.join_cons, String.toList_append, String.toList_append,
      List.length_append, List.length_append, hline, hrest, List.length_cons]
    show 20 + 1 + _ = _
    omega

/-- Texts that end in as many word lines end in the same, whatever stands in front of them. -/
theorem wordLines_eq_of_text {front front' : List String} {bytes bytes' : List UInt8}
    (hcount : (wordLines bytes).length = (wordLines bytes').length)
    (h : Script.text ⟨front ++ wordLines bytes, none⟩ =
      Script.text ⟨front' ++ wordLines bytes', none⟩) : wordLines bytes = wordLines bytes' := by
  have hlength (bytes : List UInt8) :
      (String.join ((wordLines bytes).map (· ++ "\n"))).toList.length =
        21 * (wordLines bytes).length :=
    length_join_of_isWordLine fun _ hline => isWordLine_of_mem hline
  have hnewline (bytes : List UInt8) : ∀ line ∈ wordLines bytes, '\n' ∉ line.toList := by
    intro line hline
    obtain ⟨a, b, c, d, rfl⟩ := mem_wordLines hline
    exact newline_not_mem_wordLine a b c d
  -- the ends of the two texts are as long, so they are the same
  have hback : String.join ((wordLines bytes).map (· ++ "\n")) =
      String.join ((wordLines bytes').map (· ++ "\n")) := by
    have htext := congrArg String.toList h
    simp only [Script.text, List.map_append, String.join_append, String.toList_append] at htext
    refine String.toList_inj.mp (List.append_inj_right' htext ?_)
    rw [hlength, hlength, hcount]
  have hlines := congrArg textLines hback
  rw [textLines_join (hnewline bytes), textLines_join (hnewline bytes')] at hlines
  exact List.append_cancel_right hlines

/-- Data of one length with the same word lines are the same. -/
theorem wordLines_injective {bytes bytes' : List UInt8} (hlength : bytes.length = bytes'.length)
    (h : wordLines bytes = wordLines bytes') : bytes = bytes' := by
  obtain ⟨words, hwords, hlines⟩ := exists_inWords bytes
  obtain ⟨words', hwords', hlines'⟩ := exists_inWords bytes'
  rw [h, hlines'] at hlines
  cases List.map_injective_iff.mpr (Option.some_injective _) hlines
  exact hwords.unique hwords' hlength

/-! ## Arrays -/

namespace Script

variable {α : Type} [LittleEndian α]

/-- The three lines in front of the words of a symbol. -/
def header (name alignment : String) : List String :=
  [".global " ++ name, ".balign " ++ alignment, name ++ ":"]

theorem array_eq (config : EmissionConfig) (name : String) (xs : Array α) :
    array config name xs =
      ⟨header name config.alignment ++ wordLines (xs.toList.flatMap LittleEndian.bytes), none⟩ :=
  rfl

/-- **The text of an array gives its entries back.** Whatever the name and the alignment, an
unlimited output takes the three lines of the header and one line for each word of the entries that
is begun. Each of these shows eight digits; the numbers that they show, least significant byte
first, are the bytes of the entries, one behind the other, and less than a word of zeros. Arrays of
one size that leave the same in an output have the same entries, bit for bit. -/
theorem array_reversible [LawfulLittleEndian α] (config : EmissionConfig) (name : String)
    (xs : Array α) :
    (∃ lines words,
      (∀ held, (⟨none, held⟩ : Sink).run (array config name xs) = (.ok (),
        ⟨none, held ++ (text ⟨header name config.alignment ++ lines, none⟩).toUTF8⟩)) ∧
      lines.length = (xs.size * LittleEndian.width α + 3) / 4 ∧
      (∀ line ∈ lines, IsWordLine line) ∧
      lines.map wordOfLine? = words.map some ∧
      InWords (xs.toList.flatMap LittleEndian.bytes) words) ∧
    ∀ (config' : EmissionConfig) (name' : String) (ys : Array α), ys.size = xs.size →
      ∀ held, (⟨none, held⟩ : Sink).run (array config name xs) =
        (⟨none, held⟩ : Sink).run (array config' name' ys) → xs = ys := by
  constructor
  · obtain ⟨words, hwords, hlines⟩ := exists_inWords (xs.toList.flatMap LittleEndian.bytes)
    refine ⟨_, words, fun held => ?_, ?_, fun line => isWordLine_of_mem, hlines, hwords⟩
    · rw [Sink.run_unlimited, array_eq]
      rfl
    · rw [length_wordLines, LittleEndian.length_flatMap_bytes]
  · intro config' name' ys hsize held hrun
    rw [Sink.run_unlimited, Sink.run_unlimited, Prod.mk.injEq, Sink.mk.injEq,
      ByteArray.append_right_inj] at hrun
    have htext := String.toByteArray_inj.mp hrun.2.2
    rw [array_eq, array_eq] at htext
    have hlength : (xs.toList.flatMap LittleEndian.bytes).length =
        (ys.toList.flatMap LittleEndian.bytes).length := by
      rw [LittleEndian.length_flatMap_bytes, LittleEndian.length_flatMap_bytes, hsize]
    have hlines := wordLines_eq_of_text (by rw [length_wordLines, length_wordLines, hlength]) htext
    exact Array.toList_inj.mp (flatMap_injective LittleEndian.length_bytes
      LittleEndian.bytes_injective hsize.symm (wordLines_injective hlength hlines))

/-- Three entries of two bytes take two lines, under a name that runs over a newline. The payload of
a NaN and the sign of a zero are told from the text. -/
theorem array_reversible_half_word :
    let config : EmissionConfig := ⟨"4", .logical⟩
    let xs : Array UInt16 := #[0x1234, 0x00ff, 0xabcd]
    let special : Array Binary64 := #[.nan, 0]
    (∃ lines words,
      (∀ held, (⟨none, held⟩ : Sink).run (array config "x\ny" xs) = (.ok (),
        ⟨none, held ++ (text ⟨header "x\ny" "4" ++ lines, none⟩).toUTF8⟩)) ∧
      lines.length = 2 ∧ lines.map wordOfLine? = words.map some ∧
      InWords [0x34, 0x12, 0xff, 0x00, 0xcd, 0xab] words) ∧
    ∀ held,
      (⟨none, held⟩ : Sink).run (array config "x" special) ≠
        (⟨none, held⟩ : Sink).run (array config "x" #[(⟨0x7ff8000000000001⟩ : Binary64), 0]) ∧
      (⟨none, held⟩ : Sink).run (array config "x" special) ≠
        (⟨none, held⟩ : Sink).run (array config "x" #[Binary64.nan, ⟨0x8000000000000000⟩]) := by
  intro config xs special
  obtain ⟨⟨lines, words, hrun, hcount, -, hlines, hwords⟩, -⟩ :=
    array_reversible config "x\ny" xs
  refine ⟨⟨lines, words, hrun, hcount.trans (by decide), hlines, hwords⟩,
    fun held => ⟨fun h => ?_, fun h => ?_⟩⟩
  · have hsame := (array_reversible config "x" special).2 config "x"
      #[⟨0x7ff8000000000001⟩, 0] rfl held h
    exact absurd hsame (by decide)
  · have hsame := (array_reversible config "x" special).2 config "x"
      #[.nan, ⟨0x8000000000000000⟩] rfl held h
    exact absurd hsame (by decide)

end Script

end SparseDatasets
