import SparseDatasets.Proofs.Numerals
import SparseDatasets.Proofs.Words

/-!
# The tokens of a written value

Cutting the text of a value into tokens gives the same tokens whatever blanks its
spacing puts between them. A number is the one token that has to be kept apart from
what follows it, and a bracket, a comma or a blank always follows.

- `Token.Scans`: a text and its tokens, one character or token at a time.
- `Token.Ended`: what may follow a number.
- `Token.scans_quote`: strings, whatever characters have to be escaped.
- `Json.Written`: the values that a text can be written for.
- `Json.tokens`: the tokens of a value.
- `Json.Written.scan?_render`: the tokens of its text.
-/

namespace SparseDatasets

namespace Token

/-! ## Texts and their tokens -/

/-- The tokens that a text is cut into. No token is taken without a character. -/
inductive Scans : List Char → List Token → Prop
  | nil : Scans [] []
  | blank {c : Char} {text : List Char} {tokens : List Token} : isBlank c = true →
    Scans text tokens → Scans (c :: text) tokens
  | token {c : Char} {text rest : List Char} {token : Token} {tokens : List Token} :
    isBlank c = false → take? (c :: text) = some (token, rest) → rest.length ≤ text.length →
      Scans rest tokens → Scans (c :: text) (token :: tokens)

/-- As much fuel as there are characters is enough. -/
theorem Scans.scanWithin? {text : List Char} {tokens : List Token} (h : Scans text tokens)
    {fuel : Nat} (hfuel : text.length ≤ fuel) : scanWithin? fuel text = some tokens := by
  induction h generalizing fuel with
  | nil => cases fuel <;> rfl
  | blank hblank _ ih =>
    cases fuel with
    | zero => cases hfuel
    | succ fuel =>
      rw [SparseDatasets.Token.scanWithin?, if_pos hblank]
      exact ih (Nat.le_of_succ_le_succ hfuel)
  | token hblank htake hlength _ ih =>
    cases fuel with
    | zero => cases hfuel
    | succ fuel =>
      rw [SparseDatasets.Token.scanWithin?, if_neg (by simp [hblank]), htake]
      simp only [Option.bind_eq_bind, Option.bind_some]
      rw [ih (hlength.trans (Nat.le_of_succ_le_succ hfuel))]
      rfl

theorem Scans.scan? {text : String} {tokens : List Token} (h : Scans text.toList tokens) :
    scan? text = some tokens :=
  h.scanWithin? (Nat.le_refl _)

/-- A text that a number does not run into. -/
def Ended (text : List Char) : Prop := ∀ c ∈ text.head?, isNumeric c = false

theorem ended_cons {c : Char} (h : isNumeric c = false) (text : List Char) : Ended (c :: text) := by
  intro d hd
  cases hd
  exact h

section Pieces

variable {text rest : List Char} {tail : List Token}

/-! ## Blanks, marks and words -/

/-- Blanks leave no token. -/
theorem scans_blanks (hblank : ∀ c ∈ text, isBlank c = true) (h : Scans rest tail) :
    Scans (text ++ rest) tail := by
  induction text with
  | nil => exact h
  | cons c text ih =>
    exact .blank (hblank c List.mem_cons_self)
      (ih fun d hd => hblank d (List.mem_cons_of_mem _ hd))

theorem isNumeric_of_isBlank {c : Char} (h : isBlank c = true) : isNumeric c = false := by
  simp only [isBlank, Bool.or_eq_true, beq_iff_eq] at h
  rcases h with ((rfl | rfl) | rfl) | rfl <;> rfl

theorem ended_blanks (hblank : ∀ c ∈ text, isBlank c = true) (h : Ended rest) :
    Ended (text ++ rest) := by
  cases text with
  | nil => exact h
  | cons c text => exact ended_cons (isNumeric_of_isBlank (hblank c List.mem_cons_self)) _

theorem isBlank_of_ofMark? {c : Char} {token : Token} (h : ofMark? c = some token) :
    isBlank c = false := by
  unfold ofMark? at h
  split at h <;> first | rfl | cases h

/-- Brackets, colons and commas are tokens of their own. -/
theorem scans_mark {c : Char} {token : Token} (hmark : ofMark? c = some token)
    (h : Scans rest tail) : Scans (c :: rest) (token :: tail) := by
  refine .token (isBlank_of_ofMark? hmark) ?_ (Nat.le_refl _) h
  rw [take?, hmark]

theorem scans_null (h : Scans rest tail) : Scans ("null".toList ++ rest) (.null :: tail) :=
  .token rfl rfl (by simp; omega) h

theorem scans_true (h : Scans rest tail) : Scans ("true".toList ++ rest) (.bool true :: tail) :=
  .token rfl rfl (by simp; omega) h

theorem scans_false (h : Scans rest tail) : Scans ("false".toList ++ rest) (.bool false :: tail) :=
  .token rfl rfl (by simp; omega) h

/-! ## Numbers -/

/-- No mark, quote, blank or letter of a word is a character of numbers. -/
theorem take?_of_isNumeric {c : Char} (h : isNumeric c = true) :
    ofMark? c = none ∧ isBlank c = false ∧ c ≠ '"' ∧ c ≠ 'n' ∧ c ≠ 't' ∧ c ≠ 'f' := by
  refine ⟨?_, ?_, ?_, ?_, ?_, ?_⟩
  · unfold ofMark?
    split <;> first | exact absurd h (by decide) | rfl
  · rw [← Bool.not_eq_true]
    intro hblank
    rw [isNumeric_of_isBlank hblank] at h
    cases h
  all_goals
    rintro rfl
    exact absurd h (by decide)

/-- A number is taken whole if what follows is no character of numbers. -/
theorem scans_number (hnumber : (NumberParts.ofChars? text).isSome = true) (hended : Ended rest)
    (h : Scans rest tail) : Scans (text ++ rest) (.number (String.ofList text) :: tail) := by
  have hnumeric := NumberParts.isNumeric_of_mem hnumber
  have hwhile : (text ++ rest).takeWhile isNumeric = text ∧
      (text ++ rest).dropWhile isNumeric = rest := by
    have hrest : rest.takeWhile isNumeric = [] ∧ rest.dropWhile isNumeric = rest := by
      cases rest with
      | nil => exact ⟨rfl, rfl⟩
      | cons c rest =>
        have hc : isNumeric c = false := hended c rfl
        exact ⟨List.takeWhile_cons_of_neg (by simp [hc]), List.dropWhile_cons_of_neg (by simp [hc])⟩
    rw [List.takeWhile_append_of_pos hnumeric, List.dropWhile_append_of_pos hnumeric, hrest.1,
      hrest.2, List.append_nil]
    exact ⟨rfl, rfl⟩
  obtain ⟨c, text, rfl⟩ := List.exists_cons_of_ne_nil (NumberParts.ne_nil_of_isSome hnumber)
  obtain ⟨hmark, hblank, hquote, hn, ht, hf⟩ :=
    take?_of_isNumeric (hnumeric c List.mem_cons_self)
  have htake : take? (c :: (text ++ rest)) = some (.number (String.ofList (c :: text)), rest) := by
    rw [take?, hmark]
    dsimp only
    rw [if_neg hquote, if_neg hn, if_neg ht, if_neg hf, ← List.cons_append, hwhile.1, hwhile.2,
      if_pos hnumber]
  exact .token hblank htake (by simp) h

/-! ## Strings -/

/-- A backslash and a letter are the character that the letter stands for. -/
theorem takePieces?_short {c letter : Char} (hletter : shortEscape? letter = some c)
    (text : List Char) : takePieces? ('\\' :: letter :: text) =
      (takePieces? text).map fun taken => (.char c :: taken.1, taken.2) := by
  have hu : letter ≠ 'u' := by
    rintro rfl
    cases hletter
  rw [takePieces?.eq_4 _ _ fun _ _ _ _ _ h _ => hu h, hletter]
  cases takePieces? text <;> rfl

/-- Four digits behind a backslash and the letter for them are sixteen bits. -/
theorem takePieces?_unit {n : Nat} (hn : n < 256) (text : List Char) :
    takePieces? ('\\' :: 'u' :: '0' :: '0' :: hexDigit (n / 16) :: hexDigit (n % 16) :: text) =
      (takePieces? text).map fun taken => (.unit n :: taken.1, taken.2) := by
  have hzero : hexValue? '0' = some 0 := rfl
  have hbits : hexUnit? '0' '0' (hexDigit (n / 16)) (hexDigit (n % 16)) = some n := by
    simp only [hexUnit?, hzero, hexValue?_hexDigit (n / 16) (by omega),
      hexValue?_hexDigit (n % 16) (by omega), Option.bind_eq_bind, Option.bind_some]
    exact congrArg some (by omega)
  rw [takePieces?.eq_3, hbits]
  cases takePieces? text <;> rfl

/-- All other characters stand for themselves. -/
theorem takePieces?_raw {c : Char} (hquote : c ≠ '"') (hbackslash : c ≠ '\\')
    (hcontrol : ¬ c.toNat < 32) (text : List Char) : takePieces? (c :: text) =
      (takePieces? text).map fun taken => (.char c :: taken.1, taken.2) := by
  rw [takePieces?.eq_5 _ _ (fun h => hquote h) (fun _ _ _ _ _ h _ => hbackslash h)
    fun _ _ h _ => hbackslash h, if_neg (by simp [hcontrol, hbackslash])]
  cases takePieces? text <;> rfl

/-- Read as a piece of a string, what is written for a character is that character. -/
theorem takePieces?_escape (c : Char) (text : List Char) :
    ∃ piece, (∀ pieces, joinPieces? (piece :: pieces) = (joinPieces? pieces).map (c :: ·)) ∧
      takePieces? (Json.escape c ++ text) =
        (takePieces? text).map fun taken => (piece :: taken.1, taken.2) := by
  have hshort : ∀ letter, shortEscape? letter = some c → Json.escape c = ['\\', letter] →
      ∃ piece, (∀ pieces, joinPieces? (piece :: pieces) = (joinPieces? pieces).map (c :: ·)) ∧
        takePieces? (Json.escape c ++ text) =
          (takePieces? text).map fun taken => (piece :: taken.1, taken.2) := by
    intro letter hletter hescape
    rw [hescape]
    exact ⟨.char c, fun _ => rfl, takePieces?_short hletter text⟩
  -- the characters with a letter of their own
  by_cases hquote : c = '"'
  · exact hshort '"' (by rw [hquote]; rfl) (by rw [hquote]; rfl)
  by_cases hbackslash : c = '\\'
  · exact hshort '\\' (by rw [hbackslash]; rfl) (by rw [hbackslash]; rfl)
  by_cases hn : c = '\n'
  · exact hshort 'n' (by rw [hn]; rfl) (by rw [hn]; rfl)
  by_cases hr : c = '\r'
  · exact hshort 'r' (by rw [hr]; rfl) (by rw [hr]; rfl)
  by_cases ht : c = '\t'
  · exact hshort 't' (by rw [ht]; rfl) (by rw [ht]; rfl)
  by_cases hb : c.toNat = 8
  · have hc : c = Char.ofNat 8 := by rw [← hb, Char.ofNat_toNat]
    exact hshort 'b' (by rw [hc]; rfl) (by rw [hc]; rfl)
  by_cases hf : c.toNat = 12
  · have hc : c = Char.ofNat 12 := by rw [← hf, Char.ofNat_toNat]
    exact hshort 'f' (by rw [hc]; rfl) (by rw [hc]; rfl)
  unfold Json.escape
  simp only [hquote, hbackslash, hn, hr, ht, hb, hf, if_false]
  by_cases hcontrol : c.toNat < 32
  · -- other control characters are below the surrogates, so no unit is waited for
    rw [if_pos hcontrol]
    refine ⟨.unit c.toNat, fun pieces => ?_, takePieces?_unit (by omega) text⟩
    have hleading : isLeading c.toNat = false := by
      simp only [isLeading, decide_eq_false_iff_not]
      omega
    have htrailing : isTrailing c.toNat = false := by
      simp only [isTrailing, decide_eq_false_iff_not]
      omega
    rw [joinPieces?.eq_def]
    dsimp only
    rw [hleading, htrailing, Char.ofNat_toNat]
    rfl
  · rw [if_neg hcontrol]
    exact ⟨.char c, fun _ => rfl, takePieces?_raw hquote hbackslash hcontrol text⟩

/-- A string is read up to its closing quote. -/
theorem takePieces?_flatMap_escape (content rest : List Char) :
    ∃ pieces, joinPieces? pieces = some content ∧
      takePieces? (content.flatMap Json.escape ++ '"' :: rest) = some (pieces, rest) := by
  induction content with
  | nil => exact ⟨[], rfl, takePieces?.eq_2 rest⟩
  | cons c content ih =>
    obtain ⟨pieces, hjoin, htake⟩ := ih
    obtain ⟨piece, hpiece, hescape⟩ :=
      takePieces?_escape c (content.flatMap Json.escape ++ '"' :: rest)
    refine ⟨piece :: pieces, ?_, ?_⟩
    · rw [hpiece, hjoin]
      rfl
    · rw [List.flatMap_cons, List.append_assoc, hescape, htake]
      rfl

theorem toList_quote (content : String) :
    (Json.quote content).toList = '"' :: (content.toList.flatMap Json.escape ++ ['"']) :=
  String.toList_ofList

theorem scans_quote (content : String) (h : Scans rest tail) :
    Scans ((Json.quote content).toList ++ rest) (.string (some content) :: tail) := by
  obtain ⟨pieces, hjoin, htake⟩ := takePieces?_flatMap_escape content.toList rest
  rw [toList_quote, List.cons_append, List.append_assoc]
  refine .token rfl ?_ (by simp; omega) h
  show ((takePieces? (content.toList.flatMap Json.escape ++ '"' :: rest)).map fun taken =>
    (Token.string ((joinPieces? taken.1).map String.ofList), taken.2)) = _
  rw [htake, Option.map_some, hjoin, Option.map_some, String.ofList_toList]

end Pieces

end Token

/-! ## Values -/

namespace Json

open Token (Scans Ended isBlank)

/-- The values that a text can be written for: what stands for a number is one, and every string
and every name has content. -/
inductive Written : Json → Prop
  | null : Written .null
  | bool (value : Bool) : Written (.bool value)
  | number {text : String} : (NumberParts.ofChars? text.toList).isSome = true →
    Written (.number text)
  | string (content : String) : Written (.string (some content))
  | array {items : List Json} : (∀ item ∈ items, Written item) → Written (.array items)
  | object {members : List (Option String × Json)} :
    (∀ entry ∈ members, entry.1.isSome = true) → (∀ entry ∈ members, Written entry.2) →
      Written (.object members)

mutual

/-- The tokens of a value. -/
def tokens : Json → List Token
  | .null => [.null]
  | .bool value => [.bool value]
  | .number text => [.number text]
  | .string content => [.string content]
  | .array [] => [.openArray, .closeArray]
  | .array (item :: items) => .openArray :: (tokens item ++ itemTokens items)
  | .object [] => [.openObject, .closeObject]
  | .object ((key, value) :: members) =>
    .openObject :: .string key :: .colon :: (tokens value ++ memberTokens members)

/-- The tokens of the items of an array after the first, and the closing bracket. -/
def itemTokens : List Json → List Token
  | [] => [.closeArray]
  | item :: items => .comma :: (tokens item ++ itemTokens items)

/-- The tokens of the members of an object after the first, and the closing brace. -/
def memberTokens : List (Option String × Json) → List Token
  | [] => [.closeObject]
  | (key, value) :: members =>
    .comma :: .string key :: .colon :: (tokens value ++ memberTokens members)

end

end Json

/-- Nothing but blanks is put between tokens. -/
structure Spacing.Blank (spacing : Spacing) : Prop where
  gap : ∀ depth, ∀ c ∈ (spacing.gap depth).toList, Token.isBlank c = true
  afterColon : ∀ c ∈ spacing.afterColon.toList, Token.isBlank c = true

theorem Spacing.compact_blank : compact.Blank where
  gap _ := by simp [compact]
  afterColon := by simp [compact]

theorem Spacing.pretty_blank : pretty.Blank where
  gap depth := by
    simp only [pretty, String.toList_ofList, List.mem_cons, List.mem_replicate]
    rintro c (rfl | ⟨-, rfl⟩) <;> rfl
  afterColon c hc := by
    rw [List.mem_singleton.mp (show c ∈ [' '] from hc)]
    rfl

namespace Json

open Token (Scans Ended scans_mark scans_blanks scans_quote ended_blanks ended_cons)

/-- The text of a value has its tokens, at every depth and in front of everything that a number
does not run into. -/
def Rendered (spacing : Spacing) (json : Json) : Prop :=
  ∀ depth (rest : List Char) tail, Ended rest → Scans rest tail →
    Scans ((renderAt spacing depth json).toList ++ rest) (tokens json ++ tail)

section Rendering

variable {spacing : Spacing} {depth : Nat} {rest : List Char} {tail : List Token}

/-! ### Items -/

theorem toList_renderItems_nil : (renderItems spacing depth []).toList ++ rest = rest := by
  rw [renderItems]
  rfl

theorem toList_renderItems_cons (item : Json) (items : List Json) :
    (renderItems spacing depth (item :: items)).toList ++ rest =
      ',' :: ((spacing.gap depth).toList ++ ((renderAt spacing depth item).toList ++
        ((renderItems spacing depth items).toList ++ rest))) := by
  simp only [renderItems, String.toList_append, List.append_assoc]
  rfl

/-- Behind an item stands a comma or what closes the array. -/
theorem ended_items (items : List Json) (h : Ended rest) :
    Ended ((renderItems spacing depth items).toList ++ rest) := by
  cases items with
  | nil => rwa [toList_renderItems_nil]
  | cons item items =>
    rw [toList_renderItems_cons]
    exact ended_cons rfl _

/-- The items after the first, in front of what closes the array. -/
theorem scans_items (depth : Nat) (hspacing : spacing.Blank) {items : List Json}
    (hitems : ∀ item ∈ items, Rendered spacing item) (hended : Ended rest)
    (h : Scans rest (.closeArray :: tail)) :
    Scans ((renderItems spacing depth items).toList ++ rest) (itemTokens items ++ tail) := by
  induction items with
  | nil => rwa [toList_renderItems_nil]
  | cons item items ih =>
    have hrest := ih fun other hother => hitems other (List.mem_cons_of_mem _ hother)
    have hitem := hitems item List.mem_cons_self depth _ _ (ended_items items hended) hrest
    rw [toList_renderItems_cons, itemTokens, List.cons_append, List.append_assoc]
    exact scans_mark rfl (scans_blanks (hspacing.gap depth) hitem)

/-! ### Members -/

theorem toList_renderMembers_nil : (renderMembers spacing depth []).toList ++ rest = rest := by
  rw [renderMembers]
  rfl

theorem toList_renderMembers_cons (key : Option String) (value : Json)
    (members : List (Option String × Json)) :
    (renderMembers spacing depth ((key, value) :: members)).toList ++ rest =
      ',' :: ((spacing.gap depth).toList ++ ((quote (key.getD "")).toList ++
        (':' :: (spacing.afterColon.toList ++ ((renderAt spacing depth value).toList ++
          ((renderMembers spacing depth members).toList ++ rest)))))) := by
  simp only [renderMembers, String.toList_append, List.append_assoc]
  rfl

theorem ended_members (members : List (Option String × Json)) (h : Ended rest) :
    Ended ((renderMembers spacing depth members).toList ++ rest) := by
  cases members with
  | nil => rwa [toList_renderMembers_nil]
  | cons entry members =>
    rw [toList_renderMembers_cons]
    exact ended_cons rfl _

/-- A name, a colon and a value. -/
theorem scans_member (depth : Nat) (hspacing : spacing.Blank) (key : String) {value : Json}
    (hvalue : Rendered spacing value) (hended : Ended rest) (h : Scans rest tail) :
    Scans ((quote key).toList ++ (':' :: (spacing.afterColon.toList ++
        ((renderAt spacing depth value).toList ++ rest))))
      (.string (some key) :: .colon :: (tokens value ++ tail)) :=
  scans_quote key (scans_mark rfl (scans_blanks hspacing.afterColon
    (hvalue depth rest tail hended h)))

theorem scans_members (depth : Nat) (hspacing : spacing.Blank)
    {members : List (Option String × Json)}
    (hkeys : ∀ entry ∈ members, entry.1.isSome = true)
    (hvalues : ∀ entry ∈ members, Rendered spacing entry.2) (hended : Ended rest)
    (h : Scans rest (.closeObject :: tail)) :
    Scans ((renderMembers spacing depth members).toList ++ rest)
      (memberTokens members ++ tail) := by
  induction members with
  | nil => rwa [toList_renderMembers_nil]
  | cons entry members ih =>
    obtain ⟨key, value⟩ := entry
    obtain ⟨key, rfl⟩ := Option.isSome_iff_exists.mp (hkeys _ List.mem_cons_self)
    have hrest := ih (fun other hother => hkeys other (List.mem_cons_of_mem _ hother))
      fun other hother => hvalues other (List.mem_cons_of_mem _ hother)
    have hmember := scans_member depth hspacing key
      (hvalues _ List.mem_cons_self) (ended_members members hended) hrest
    rw [toList_renderMembers_cons, memberTokens, List.cons_append, List.cons_append,
      List.cons_append, List.append_assoc]
    exact scans_mark rfl (scans_blanks (hspacing.gap depth) hmember)

/-! ### Values -/

/-- The text of a value that can be written has its tokens. -/
theorem Written.rendered (hspacing : spacing.Blank) {json : Json} (h : json.Written) :
    Rendered spacing json := by
  induction h with
  | null => exact fun depth rest tail _ h => Token.scans_null h
  | bool value =>
    cases value with
    | true => exact fun depth rest tail _ h => Token.scans_true h
    | false => exact fun depth rest tail _ h => Token.scans_false h
  | number hnumber =>
    intro depth rest tail hended h
    have hscans := Token.scans_number hnumber hended h
    rwa [String.ofList_toList] at hscans
  | string content => exact fun depth rest tail _ h => scans_quote content h
  | @array items _ ih =>
    intro depth rest tail hended h
    cases items with
    | nil =>
      rw [renderAt, tokens]
      show Scans ('[' :: ']' :: rest) (.openArray :: .closeArray :: tail)
      exact scans_mark rfl (scans_mark rfl h)
    | cons item items =>
      -- from the back: what closes the array, the other items, and the first one
      have hclose : Ended ((spacing.gap depth).toList ++ ']' :: rest) :=
        ended_blanks (hspacing.gap depth) (ended_cons rfl rest)
      have hitems := scans_items (depth + 1) hspacing
        (fun other hother => ih other (List.mem_cons_of_mem _ hother)) hclose
        (scans_blanks (hspacing.gap depth) (scans_mark rfl h))
      have hitem := ih item List.mem_cons_self (depth + 1) _ _ (ended_items items hclose) hitems
      have htext : (renderAt spacing depth (.array (item :: items))).toList ++ rest =
          '[' :: ((spacing.gap (depth + 1)).toList ++
            ((renderAt spacing (depth + 1) item).toList ++
              ((renderItems spacing (depth + 1) items).toList ++
                ((spacing.gap depth).toList ++ ']' :: rest)))) := by
        simp only [renderAt, String.toList_append, List.append_assoc]
        rfl
      rw [htext, tokens, List.cons_append, List.append_assoc]
      exact scans_mark rfl (scans_blanks (hspacing.gap _) hitem)
  | @object members hkeys _ ih =>
    intro depth rest tail hended h
    cases members with
    | nil =>
      rw [renderAt, tokens]
      show Scans ('\x7b' :: '\x7d' :: rest) (.openObject :: .closeObject :: tail)
      exact scans_mark rfl (scans_mark rfl h)
    | cons entry members =>
      obtain ⟨key, value⟩ := entry
      obtain ⟨key, rfl⟩ := Option.isSome_iff_exists.mp (hkeys _ List.mem_cons_self)
      have hclose : Ended ((spacing.gap depth).toList ++ '\x7d' :: rest) :=
        ended_blanks (hspacing.gap depth) (ended_cons rfl rest)
      have hmembers := scans_members (depth + 1) hspacing
        (fun other hother => hkeys other (List.mem_cons_of_mem _ hother))
        (fun other hother => ih other (List.mem_cons_of_mem _ hother)) hclose
        (scans_blanks (hspacing.gap depth) (scans_mark rfl h))
      have hmember := scans_member (depth + 1) hspacing key
        (ih _ List.mem_cons_self) (ended_members members hclose) hmembers
      have htext : (renderAt spacing depth (.object ((some key, value) :: members))).toList ++
          rest = '\x7b' :: ((spacing.gap (depth + 1)).toList ++ ((quote key).toList ++
            (':' :: (spacing.afterColon.toList ++
              ((renderAt spacing (depth + 1) value).toList ++
                ((renderMembers spacing (depth + 1) members).toList ++
                  ((spacing.gap depth).toList ++ '\x7d' :: rest))))))) := by
        simp only [renderAt, String.toList_append, List.append_assoc]
        rfl
      rw [htext, tokens, List.cons_append, List.cons_append, List.cons_append, List.append_assoc]
      exact scans_mark rfl (scans_blanks (hspacing.gap _) hmember)

/-- The tokens of the text of a value do not depend on the spacing. -/
theorem Written.scan?_render (hspacing : spacing.Blank) {json : Json} (h : json.Written) :
    Token.scan? (json.render spacing) = some json.tokens := by
  refine Scans.scan? ?_
  have hscans := h.rendered hspacing 0 [] [] (fun c hc => by cases hc) .nil
  rwa [List.append_nil, List.append_nil] at hscans

end Rendering

end Json

end SparseDatasets
