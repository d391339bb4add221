import SparseDatasets.Number.Hex

/-!
# JSON values and their texts

A JSON value keeps what its text says and decides nothing about it: numbers stay as they are
written, and an object keeps its members in order, repeated keys included. A string whose escapes
do not form characters has no content; such a text is still JSON, and it is up to the reader of
the value to refuse it.

- `Json`: the values.
- `Spacing`: where blanks go; `Spacing.compact` and `Spacing.pretty`.
- `Json.render`: the text of a value. Both spacings write the same tokens.
-/

namespace SparseDatasets

/-- A JSON value. -/
inductive Json where
  | null
  | bool (value : Bool)
  /-- A number as it is written. -/
  | number (text : String)
  /-- The content of a string, or nothing if its escapes form no characters. -/
  | string (content : Option String)
  | array (items : List Json)
  | object (members : List (Option String × Json))
deriving Inhabited

namespace Json

/-! ## Strings -/

/-- How a character stands in a string: quotes, backslashes and control characters are escaped,
all else stands for itself. -/
def escape (c : Char) : List Char :=
  if c = '"' then ['\\', '"']
  else if c = '\\' then ['\\', '\\']
  else if c = '\n' then ['\\', 'n']
  else if c = '\r' then ['\\', 'r']
  else if c = '\t' then ['\\', 't']
  else if c.toNat = 8 then ['\\', 'b']
  else if c.toNat = 12 then ['\\', 'f']
  else if c.toNat < 32 then
    ['\\', 'u', '0', '0', hexDigit (c.toNat / 16), hexDigit (c.toNat % 16)]
  else [c]

/-- The text of a string. -/
def quote (content : String) : String :=
  String.ofList ('"' :: content.toList.flatMap escape ++ ['"'])

end Json

/-! ## Layout -/

/-- Where blanks go in the text of a value. -/
structure Spacing where
  /-- What stands before each item at a depth, and before the bracket that closes the depth. -/
  gap : Nat → String
  /-- What stands between the colon and the value of a member. -/
  afterColon : String

namespace Spacing

/-- No blanks at all. -/
def compact : Spacing := ⟨fun _ => "", ""⟩

/-- One item a line, two blanks deeper at each depth. -/
def pretty : Spacing := ⟨fun depth => String.ofList ('\n' :: List.replicate (2 * depth) ' '), " "⟩

end Spacing

namespace Json

mutual

/-- The text of a value that stands at a depth. -/
def renderAt (spacing : Spacing) (depth : Nat) : Json → String
  | .null => "null"
  | .bool true => "true"
  | .bool false => "false"
  | .number text => text
  | .string content => quote (content.getD "")
  | .array [] => "[]"
  | .array (item :: items) =>
    "[" ++ spacing.gap (depth + 1) ++ renderAt spacing (depth + 1) item ++
      renderItems spacing (depth + 1) items ++ spacing.gap depth ++ "]"
  | .object [] => "\x7b\x7d"
  | .object ((key, value) :: members) =>
    "\x7b" ++ spacing.gap (depth + 1) ++ quote (key.getD "") ++ ":" ++ spacing.afterColon ++
      renderAt spacing (depth + 1) value ++ renderMembers spacing (depth + 1) members ++
      spacing.gap depth ++ "\x7d"

/-- The items of an array after the first. -/
def renderItems (spacing : Spacing) (depth : Nat) : List Json → String
  | [] => ""
  | item :: items =>
    "," ++ spacing.gap depth ++ renderAt spacing depth item ++ renderItems spacing depth items

/-- The members of an object after the first. -/
def renderMembers (spacing : Spacing) (depth : Nat) : List (Option String × Json) → String
  | [] => ""
  | (key, value) :: members =>
    "," ++ spacing.gap depth ++ quote (key.getD "") ++ ":" ++ spacing.afterColon ++
      renderAt spacing depth value ++ renderMembers spacing depth members

end

/-- The text of a value. -/
def render (spacing : Spacing) (json : Json) : String := json.renderAt spacing 0

end Json

end SparseDatasets
