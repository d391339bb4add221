import SparseDatasets.Proofs.Scanning

/-!
# Written values read back

The reader takes a value off the front of a list of tokens and leaves what stands
behind it, with twice as much fuel as there are tokens. So a value that can be
written is read back from its text, whatever blanks are put between its tokens.

- `Json.Parsed`: a value is taken off the front of its tokens.
- `Json.Written.parsed`: every value that can be written is.
- `Json.Written.parse?_render`: **the text of a value is read back.**
-/

namespace SparseDatasets

namespace Json

/-- With enough fuel, a value is taken off the front of its tokens. -/
def Parsed (json : Json) : Prop :=
  ∀ fuel rest, 2 * json.tokens.length ≤ fuel + 1 →
    ofTokens? fuel (json.tokens ++ rest) = some (json, rest)

/-- The tokens of a value do not start with the bracket that closes an array. -/
theorem exists_tokens_eq (json : Json) :
    ∃ token rest, json.tokens = token :: rest ∧ token ≠ .closeArray := by
  cases json with
  | null => exact ⟨.null, [], by rw [tokens], by simp⟩
  | bool value => exact ⟨.bool value, [], by rw [tokens], by simp⟩
  | number text => exact ⟨.number text, [], by rw [tokens], by simp⟩
  | string content => exact ⟨.string content, [], by rw [tokens], by simp⟩
  | array items => cases items <;> exact ⟨.openArray, _, by rw [tokens], by simp⟩
  | object members => cases members <;> exact ⟨.openObject, _, by rw [tokens], by simp⟩

/-- The items of an array up to its closing bracket. -/
theorem itemsOfTokens?_eq {item : Json} {items : List Json} (hitem : Parsed item)
    (hitems : ∀ other ∈ items, Parsed other) (fuel : Nat) (rest : List Token)
    (hfuel : 2 * (item.tokens.length + (itemTokens items).length) ≤ fuel) :
    itemsOfTokens? fuel (item.tokens ++ (itemTokens items ++ rest)) =
      some (item :: items, rest) := by
  induction items generalizing item fuel with
  | nil =>
    rw [itemTokens, List.length_singleton] at hfuel
    obtain ⟨fuel, rfl⟩ : ∃ n, fuel = n + 1 := ⟨fuel - 1, by omega⟩
    rw [itemsOfTokens?, hitem fuel _ (by omega)]
    rfl
  | cons next items ih =>
    rw [itemTokens, List.length_cons, List.length_append] at hfuel
    obtain ⟨fuel, rfl⟩ : ∃ n, fuel = n + 1 := ⟨fuel - 1, by omega⟩
    have hrest := ih (hitems next List.mem_cons_self)
      (fun other hother => hitems other (List.mem_cons_of_mem _ hother)) fuel (by omega)
    rw [itemsOfTokens?, hitem fuel _ (by omega), itemTokens, List.cons_append, List.append_assoc]
    dsimp only
    rw [hrest]
    rfl

/-- The members of an object up to its closing brace. -/
theorem membersOfTokens?_eq (key : Option String) {value : Json}
    {members : List (Option String × Json)} (hvalue : Parsed value)
    (hmembers : ∀ entry ∈ members, Parsed entry.2) (fuel : Nat) (rest : List Token)
    (hfuel : 2 * (value.tokens.length + (memberTokens members).length) ≤ fuel) :
    membersOfTokens? fuel
        (.string key :: .colon :: (value.tokens ++ (memberTokens members ++ rest))) =
      some ((key, value) :: members, rest) := by
  induction members generalizing key value fuel with
  | nil =>
    rw [memberTokens, List.length_singleton] at hfuel
    obtain ⟨fuel, rfl⟩ : ∃ n, fuel = n + 1 := ⟨fuel - 1, by omega⟩
    rw [membersOfTokens?, hvalue fuel _ (by omega)]
    rfl
  | cons entry members ih =>
    obtain ⟨next, other⟩ := entry
    simp only [memberTokens, List.length_cons, List.length_append] at hfuel
    obtain ⟨fuel, rfl⟩ : ∃ n, fuel = n + 1 := ⟨fuel - 1, by omega⟩
    have hother : Parsed other := hmembers _ List.mem_cons_self
    have hrest := ih next hother
      (fun entry hentry => hmembers entry (List.mem_cons_of_mem _ hentry)) fuel (by omega)
    rw [membersOfTokens?, hvalue fuel _ (by omega), memberTokens, List.cons_append,
      List.cons_append, List.cons_append, List.append_assoc]
    dsimp only
    rw [hrest]
    rfl

/-- A value that can be written is taken off the front of its tokens. -/
theorem Written.parsed {json : Json} (h : json.Written) : Parsed json := by
  induction h with
  | @array items _ ih =>
    intro fuel rest hfuel
    cases items with
    | nil =>
      rw [tokens] at hfuel ⊢
      obtain ⟨fuel, rfl⟩ : ∃ n, fuel = n + 1 := ⟨fuel - 1, by simp at hfuel; omega⟩
      rfl
    | cons item items =>
      -- the opening bracket pays for the array, each comma for an item
      rw [tokens] at hfuel ⊢
      simp only [List.length_cons, List.length_append] at hfuel
      obtain ⟨fuel, rfl⟩ : ∃ n, fuel = n + 1 := ⟨fuel - 1, by omega⟩
      have hitems := itemsOfTokens?_eq (ih item List.mem_cons_self)
        (fun other hother => ih other (List.mem_cons_of_mem _ hother)) fuel rest (by omega)
      have hopen : ∀ others,
          item.tokens ++ (itemTokens items ++ rest) ≠ .closeArray :: others := by
        intro others hothers
        obtain ⟨token, _, htokens, hclose⟩ := exists_tokens_eq item
        rw [htokens, List.cons_append] at hothers
        exact hclose (List.cons.inj hothers).1
      rw [List.cons_append, List.append_assoc, ofTokens?.eq_7 _ _ hopen, hitems]
      rfl
  | @object members _ _ ih =>
    intro fuel rest hfuel
    cases members with
    | nil =>
      rw [tokens] at hfuel ⊢
      obtain ⟨fuel, rfl⟩ : ∃ n, fuel = n + 1 := ⟨fuel - 1, by simp at hfuel; omega⟩
      rfl
    | cons entry members =>
      obtain ⟨key, value⟩ := entry
      rw [tokens] at hfuel ⊢
      simp only [List.length_cons, List.length_append] at hfuel
      obtain ⟨fuel, rfl⟩ : ∃ n, fuel = n + 1 := ⟨fuel - 1, by omega⟩
      have hvalue : Parsed value := ih _ List.mem_cons_self
      have hmembers := membersOfTokens?_eq key hvalue
        (fun other hother => ih other (List.mem_cons_of_mem _ hother)) fuel rest (by omega)
      rw [List.cons_append, List.cons_append, List.cons_append, List.append_assoc,
        ofTokens?.eq_9 _ _ (fun _ h => by cases h), hmembers]
      rfl
  | _ =>
    intro fuel rest hfuel
    rw [tokens] at hfuel ⊢
    obtain ⟨fuel, rfl⟩ : ∃ n, fuel = n + 1 := ⟨fuel - 1, by simp at hfuel; omega⟩
    rfl

/-- The text of a value that can be written is read back, whatever blanks stand in it. -/
theorem Written.parse?_render {spacing : Spacing} (hspacing : spacing.Blank) {json : Json}
    (h : json.Written) : parse? (json.render spacing) = some json := by
  have hparsed := h.parsed (2 * json.tokens.length + 1) [] (by omega)
  rw [List.append_nil] at hparsed
  rw [parse?, h.scan?_render hspacing]
  dsimp only
  rw [hparsed]

end Json

end SparseDatasets
