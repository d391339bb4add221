import SparseDatasets.Json.Token
import SparseDatasets.Json.Value

/-!
# Reading JSON

The reader follows the grammar over the tokens of a text: no comma after a last item, nothing
after the value.

- `Json.ofTokens?`: the value at the front of a list of tokens.
- `Json.parse?`: the value of a text.
-/

namespace SparseDatasets

namespace Json

mutual

/-- The value at the front of a list of tokens, and the tokens after it. -/
def ofTokens? : (fuel : Nat) → List Token → Option (Json × List Token)
  | 0, _ => none
  | fuel + 1, tokens =>
    match tokens with
    | .null :: rest => some (.null, rest)
    | .bool b :: rest => some (.bool b, rest)
    | .number text :: rest => some (.number text, rest)
    | .string content :: rest => some (.string content, rest)
    | .openArray :: .closeArray :: rest => some (.array [], rest)
    | .openArray :: rest => (itemsOfTokens? fuel rest).map fun (items, rest) => (.array items, rest)
    | .openObject :: .closeObject :: rest => some (.object [], rest)
    | .openObject :: rest =>
      (membersOfTokens? fuel rest).map fun (members, rest) => (.object members, rest)
    | _ => none

/-- The items of an array, at least one, up to and with its closing bracket. -/
def itemsOfTokens? : (fuel : Nat) → List Token → Option (List Json × List Token)
  | 0, _ => none
  | fuel + 1, tokens =>
    match ofTokens? fuel tokens with
    | some (item, .closeArray :: rest) => some ([item], rest)
    | some (item, .comma :: rest) =>
      (itemsOfTokens? fuel rest).map fun (items, rest) => (item :: items, rest)
    | _ => none

/-- The members of an object, at least one, up to and with its closing brace. -/
def membersOfTokens? : (fuel : Nat) → List Token → Option (List (Option String × Json) × List Token)
  | 0, _ => none
  | fuel + 1, tokens =>
    match tokens with
    | .string key :: .colon :: rest =>
      match ofTokens? fuel rest with
      | some (value, .closeObject :: rest) => some ([(key, value)], rest)
      | some (value, .comma :: rest) =>
        (membersOfTokens? fuel rest).map fun (members, rest) => ((key, value) :: members, rest)
      | _ => none
    | _ => none

end

/-- The value of a text. Between two tokens taken there are at most two steps. -/
def parse? (text : String) : Option Json :=
  match Token.scan? text with
  | none => none
  | some tokens =>
    match ofTokens? (2 * tokens.length + 1) tokens with
    | some (json, []) => some json
    | _ => none

end Json

end SparseDatasets
