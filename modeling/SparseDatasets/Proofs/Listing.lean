import Mathlib.Data.List.Nodup
import SparseDatasets.Proofs.Output
import SparseDatasets.Proofs.Words

/-!
# Symbols read back from a listing

The lines of a symbol are two directives, the label and the word lines. A directive starts with a
point and a word line with a space, so the labels are told from all other lines by their first
character, and the words of a symbol are the word lines that follow its label. No symbol runs
into the next one, as that starts with a directive.

- `label`, `isLabel`: the line that names a symbol, and how such a line is recognised.
- `WellNamed`: names whose labels can be told from each other and from all other lines.
- `wordsBelow`: the words of the word lines below a label.
- `Reads`: what it is for lines to be read back as a layout, that is, as named lists of words.
- `reads_lines`: **the lines of symbols are read back as the layout of their words.**
- `Reads.unique`: lines are read back in one way only.
-/

namespace SparseDatasets

/-! ## Labels -/

/-- The line that names a symbol. -/
def label (name : String) : String := name ++ ":"

theorem label_injective : Function.Injective label := by
  intro a b h
  have hlist : a.toList ++ ":".toList = b.toList ++ ":".toList := by
    rw [← String.toList_append, ← String.toList_append]
    exact congrArg String.toList h
  exact String.toList_inj.mp (List.append_cancel_right hlist)

/-- Whether a line is neither empty nor a directive nor data. -/
def isLabel (line : String) : Bool := line.toList.head?.any fun c => c != '.' && c != ' '

theorem isLabel_global (name : String) : isLabel (".global " ++ name) = false := by
  rw [isLabel, String.toList_append]
  rfl

theorem isLabel_align (alignment : String) : isLabel (".balign " ++ alignment) = false := by
  rw [isLabel, String.toList_append]
  rfl

theorem isLabel_of_mem_wordLines {bytes : List UInt8} {line : String}
    (h : line ∈ wordLines bytes) : isLabel line = false := by
  obtain ⟨a, b, c, d, rfl⟩ := mem_wordLines h
  rw [isLabel, toList_wordLine]
  rfl

/-- Names whose labels are told from each other and from all other lines. -/
structure WellNamed (names : List String) : Prop where
  nodup : names.Nodup
  labels : ∀ name ∈ names, isLabel (label name)
  newlines : ∀ name ∈ names, '\n' ∉ name.toList

theorem WellNamed.tail {name : String} {names : List String} (h : WellNamed (name :: names)) :
    WellNamed names :=
  ⟨(List.nodup_cons.mp h.nodup).2, fun _ hother => h.labels _ (List.mem_cons_of_mem _ hother),
    fun _ hother => h.newlines _ (List.mem_cons_of_mem _ hother)⟩

/-! ## Words below a label -/

/-- The words of the word lines that follow a line. -/
def wordsBelow (line : String) : List String → List Nat
  | [] => []
  | other :: lines => if other = line then leadingWords lines else wordsBelow line lines

theorem wordsBelow_append_of_notMem {line : String} {front : List String} (h : line ∉ front)
    (lines : List String) : wordsBelow line (front ++ lines) = wordsBelow line lines := by
  induction front with
  | nil => rfl
  | cons other front ih =>
    rw [List.mem_cons, not_or] at h
    rw [List.cons_append, wordsBelow, if_neg (Ne.symm h.1), ih h.2]

/-! ## Symbols -/

/-- A symbol that has a given name, and data that are the bytes of given words. Its alignment is
written on one line. -/
structure Symbol.Shows (symbol : Symbol) (entry : String × List Nat) : Prop where
  name : symbol.name = entry.1
  alignment : '\n' ∉ symbol.alignment.toList
  bytes : symbol.bytes = entry.2.flatMap (bytesOfNat 4)
  words : ∀ w ∈ entry.2, w < UInt32.size

namespace Symbol

variable {symbol : Symbol} {entry : String × List Nat}

/-- The only label among the lines of a symbol is its own. -/
theorem Shows.filter_lines (h : symbol.Shows entry) (hlabel : isLabel (label entry.1)) :
    symbol.lines.filter isLabel = [label entry.1] := by
  have hwords : (wordLines symbol.bytes).filter isLabel = [] :=
    List.filter_eq_nil_iff.mpr fun line hline => by simp [isLabel_of_mem_wordLines hline]
  rw [← h.name] at hlabel ⊢
  show List.filter isLabel (_ :: _ :: label symbol.name :: wordLines symbol.bytes) = _
  rw [List.filter_cons_of_neg (by simp [isLabel_global]),
    List.filter_cons_of_neg (by simp [isLabel_align]), List.filter_cons_of_pos hlabel, hwords]

theorem Shows.label_not_mem (h : symbol.Shows entry) (hlabel : isLabel (label entry.1))
    {name : String} (hname : isLabel (label name)) (hne : name ≠ entry.1) :
    label name ∉ symbol.lines := by
  intro hmem
  have hfilter : label name ∈ symbol.lines.filter isLabel := List.mem_filter.mpr ⟨hmem, hname⟩
  rw [h.filter_lines hlabel, List.mem_singleton] at hfilter
  exact hne (label_injective hfilter)

/-- The words of a symbol are read below its label, up to lines that start with no word. -/
theorem Shows.wordsBelow_self (h : symbol.Shows entry) (hlabel : isLabel (label entry.1))
    {lines : List String} (hlines : leadingWords lines = []) :
    wordsBelow (label entry.1) (symbol.lines ++ lines) = entry.2 := by
  have hfront : label entry.1 ∉ [".global " ++ symbol.name, ".balign " ++ symbol.alignment] := by
    intro hmem
    rcases List.mem_pair.mp hmem with heq | heq <;> rw [heq] at hlabel
    · exact absurd hlabel (by simp [isLabel_global])
    · exact absurd hlabel (by simp [isLabel_align])
  -- the two directives are passed over, and the label is where the words begin
  have hsplit : symbol.lines ++ lines =
      [".global " ++ symbol.name, ".balign " ++ symbol.alignment] ++
        label entry.1 :: (wordLines (entry.2.flatMap (bytesOfNat 4)) ++ lines) := by
    rw [← h.bytes, ← h.name]
    rfl
  rw [hsplit, wordsBelow_append_of_notMem hfront, wordsBelow, if_pos rfl,
    leadingWords_wordLines h.words, hlines, List.append_nil]

theorem Shows.newline_not_mem (h : symbol.Shows entry) (hname : '\n' ∉ entry.1.toList)
    {line : String} (hline : line ∈ symbol.lines) : '\n' ∉ line.toList := by
  rw [← h.name] at hname
  have hline : line = ".global " ++ symbol.name ∨ line = ".balign " ++ symbol.alignment ∨
      line = label symbol.name ∨ line ∈ wordLines symbol.bytes := by
    simpa [Symbol.lines, label] using hline
  rcases hline with rfl | rfl | rfl | hline
  · simp [String.toList_append, hname]
  · simp [String.toList_append, h.alignment]
  · simp [label, String.toList_append, hname]
  · obtain ⟨a, b, c, d, rfl⟩ := mem_wordLines hline
    exact newline_not_mem_wordLine a b c d

end Symbol

/-! ## Layouts -/

/-- Lines are read back as a layout: the label of each symbol is one line, the labels are in the
order of the layout and there are no others, and below each label are the words of the symbol. -/
structure Reads (lines : List String) (layout : List (String × List Nat)) : Prop where
  once : ∀ entry ∈ layout, lines.count (label entry.1) = 1
  order : lines.filter isLabel = layout.map (label ·.1)
  words : ∀ entry ∈ layout, wordsBelow (label entry.1) lines = entry.2

/-- Lines are read back as one layout of given names only. -/
theorem Reads.unique {lines : List String} {layout layout' : List (String × List Nat)}
    (h : Reads lines layout) (h' : Reads lines layout')
    (hnames : layout.map Prod.fst = layout'.map Prod.fst) : layout = layout' := by
  have hread : ∀ {l}, Reads lines l →
      l = (l.map Prod.fst).map fun name => (name, wordsBelow (label name) lines) := by
    intro l hl
    rw [List.map_map]
    refine (List.map_id l).symm.trans (List.map_congr_left fun entry hentry => ?_)
    exact Prod.ext rfl (hl.words entry hentry).symm
  rw [hread h, hread h', hnames]

variable {symbols : List Symbol} {layout : List (String × List Nat)}

/-- What follows a symbol starts with no word: the next symbol, or the end of the text. -/
theorem leadingWords_lines (symbols : List Symbol) :
    leadingWords (symbols.flatMap Symbol.lines ++ [""]) = [] := by
  cases symbols with
  | nil => rfl
  | cons symbol symbols =>
    -- the next symbol starts with a directive, which has no digits
    have hnone : wordOfLine? (".global " ++ symbol.name) = none := by
      rw [wordOfLine?, String.toList_append]
      rfl
    show leadingWords ((".global " ++ symbol.name) :: _) = []
    rw [leadingWords, hnone]

/-- The labels among the lines of symbols are those of the symbols, in order. -/
theorem filter_flatMap_lines (h : List.Forall₂ Symbol.Shows symbols layout)
    (hnames : WellNamed (layout.map Prod.fst)) :
    (symbols.flatMap Symbol.lines).filter isLabel = layout.map (label ·.1) := by
  induction h with
  | nil => rfl
  | @cons symbol entry symbols layout hshows h ih =>
    have hlabel : isLabel (label entry.1) := hnames.labels _ List.mem_cons_self
    rw [List.flatMap_cons, List.filter_append, hshows.filter_lines hlabel, ih hnames.tail]
    rfl

/-- The words of each symbol are read below its label. -/
theorem wordsBelow_flatMap_lines (h : List.Forall₂ Symbol.Shows symbols layout)
    (hnames : WellNamed (layout.map Prod.fst)) {entry : String × List Nat}
    (hentry : entry ∈ layout) :
    wordsBelow (label entry.1) (symbols.flatMap Symbol.lines ++ [""]) = entry.2 := by
  induction h with
  | nil => exact absurd hentry List.not_mem_nil
  | @cons symbol first symbols layout hshows h ih =>
    have hfirst : isLabel (label first.1) := hnames.labels _ List.mem_cons_self
    rw [List.flatMap_cons, List.append_assoc]
    rcases List.mem_cons.mp hentry with rfl | hlater
    · exact hshows.wordsBelow_self hfirst (leadingWords_lines symbols)
    · -- the label looked for is not among the lines of the first symbol
      have hname : entry.1 ∈ layout.map Prod.fst := List.mem_map_of_mem hlater
      have hne : entry.1 ≠ first.1 := by
        intro heq
        exact (List.nodup_cons.mp hnames.nodup).1 (heq ▸ hname)
      rw [wordsBelow_append_of_notMem
        (hshows.label_not_mem hfirst (hnames.tail.labels _ hname) hne)]
      exact ih hnames.tail hlater

/-- No line of symbols contains a newline. -/
theorem newline_not_mem_lines (h : List.Forall₂ Symbol.Shows symbols layout)
    (hnames : WellNamed (layout.map Prod.fst)) {line : String}
    (hline : line ∈ symbols.flatMap Symbol.lines) : '\n' ∉ line.toList := by
  induction h with
  | nil => exact absurd hline List.not_mem_nil
  | @cons symbol entry symbols layout hshows h ih =>
    rw [List.flatMap_cons, List.mem_append] at hline
    rcases hline with hline | hline
    · exact hshows.newline_not_mem (hnames.newlines _ List.mem_cons_self) hline
    · exact ih hnames.tail hline

/-- **The lines of symbols are read back as the layout of their words**, behind a directive and
in front of the empty end of the text. -/
theorem reads_lines (h : List.Forall₂ Symbol.Shows symbols layout)
    (hnames : WellNamed (layout.map Prod.fst)) {directive : String}
    (hdirective : isLabel directive = false) :
    Reads (directive :: symbols.flatMap Symbol.lines ++ [""]) layout := by
  have hlabel : ∀ entry ∈ layout, isLabel (label entry.1) := fun entry hentry =>
    hnames.labels _ (List.mem_map_of_mem hentry)
  have horder : (directive :: symbols.flatMap Symbol.lines ++ [""]).filter isLabel =
      layout.map (label ·.1) := by
    rw [List.cons_append, List.filter_cons_of_neg (by simp [hdirective]), List.filter_append,
      filter_flatMap_lines h hnames]
    exact List.append_nil _
  refine ⟨fun entry hentry => ?_, horder, fun entry hentry => ?_⟩
  · have hlabels : (layout.map (label ·.1)).Nodup := by
      have := hnames.nodup.map label_injective
      rwa [List.map_map] at this
    rw [← List.count_filter (hlabel entry hentry), horder]
    exact List.count_eq_one_of_mem hlabels (List.mem_map_of_mem hentry)
  · have hne : directive ≠ label entry.1 := by
      rintro rfl
      exact absurd (hlabel entry hentry) (by simp [hdirective])
    rw [List.cons_append, wordsBelow, if_neg hne]
    exact wordsBelow_flatMap_lines h hnames hentry

end SparseDatasets
