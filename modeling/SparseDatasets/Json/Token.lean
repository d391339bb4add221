import SparseDatasets.Number.Hex
import SparseDatasets.Number.Literal

/-!
# JSON tokens

A text is cut into tokens before its structure is looked at. Two values never stand side by side
in JSON, so tokens need no blanks between them.

- `Token`: the tokens; a string whose escapes form no characters has no content.
- `Token.scan?`: the tokens of a text, or nothing if it holds anything else.
-/

namespace SparseDatasets

/-- The tokens of JSON. -/
inductive Token where
  | openObject
  | closeObject
  | openArray
  | closeArray
  | colon
  | comma
  | null
  | bool (value : Bool)
  | number (text : String)
  | string (content : Option String)
deriving DecidableEq

namespace Token

/-! ## Strings -/

/-- A piece of a string: a character, or the sixteen bits of an escape. -/
inductive Piece where
  | char (c : Char)
  | unit (bits : Nat)

/-- The number of four digits of base sixteen. -/
def hexUnit? (a b c d : Char) : Option Nat := do
  return 4096 * (← hexValue? a) + 256 * (← hexValue? b) + 16 * (← hexValue? c) + (← hexValue? d)

/-- The character behind a backslash, other than the letter of the four-digit escape. -/
def shortEscape? : Char → Option Char
  | '"' => some '"'
  | '\\' => some '\\'
  | '/' => some '/'
  | 'b' => some (Char.ofNat 8)
  | 'f' => some (Char.ofNat 12)
  | 'n' => some '\n'
  | 'r' => some '\r'
  | 't' => some '\t'
  | _ => none

/-- Takes the pieces of a string off a text up to the closing quote, and that with them. Control
characters may not stand in a string. -/
def takePieces? : List Char → Option (List Piece × List Char)
  | [] => none
  | '"' :: rest => some ([], rest)
  | '\\' :: 'u' :: a :: b :: c :: d :: rest => do
    let bits ← hexUnit? a b c d
    let (pieces, rest) ← takePieces? rest
    return (.unit bits :: pieces, rest)
  | '\\' :: letter :: rest => do
    let c ← shortEscape? letter
    let (pieces, rest) ← takePieces? rest
    return (.char c :: pieces, rest)
  | c :: rest =>
    if c.toNat < 32 ∨ c = '\\' then none
    else do
      let (pieces, rest) ← takePieces? rest
      return (.char c :: pieces, rest)

/-- Whether sixteen bits are the first half of a pair that stands for one character. -/
def isLeading (bits : Nat) : Bool := decide (0xd800 ≤ bits ∧ bits < 0xdc00)

/-- Whether sixteen bits are the second half of such a pair. -/
def isTrailing (bits : Nat) : Bool := decide (0xdc00 ≤ bits ∧ bits < 0xe000)

/-- The characters of the pieces; a half without its other half stands for none. -/
def joinPieces? : List Piece → Option (List Char)
  | [] => some []
  | .char c :: rest => (joinPieces? rest).map (c :: ·)
  | .unit bits :: rest =>
    if isLeading bits then
      match rest with
      | .unit low :: rest =>
        if isTrailing low then
          (joinPieces? rest).map
            (Char.ofNat (0x10000 + (bits - 0xd800) * 0x400 + (low - 0xdc00)) :: ·)
        else none
      | _ => none
    else if isTrailing bits then none
    else (joinPieces? rest).map (Char.ofNat bits :: ·)

/-! ## Scanning -/

/-- The blanks between tokens. -/
def isBlank (c : Char) : Bool := c == ' ' || c == '\n' || c == '\r' || c == '\t'

/-- The characters that numbers are made of. -/
def isNumeric (c : Char) : Bool :=
  c.isDigit || c == '-' || c == '+' || c == '.' || c == 'e' || c == 'E'

/-- What follows `word` in a text that begins with it. -/
def stripWord? : (word : List Char) → List Char → Option (List Char)
  | [], text => some text
  | _ :: _, [] => none
  | w :: word, c :: text => if w = c then stripWord? word text else none

/-- The token of a bracket or mark. -/
def ofMark? : Char → Option Token
  | '\x7b' => some .openObject
  | '\x7d' => some .closeObject
  | '[' => some .openArray
  | ']' => some .closeArray
  | ':' => some .colon
  | ',' => some .comma
  | _ => none

/-- Takes the first token off a text that begins with one. -/
def take? (text : List Char) : Option (Token × List Char) :=
  match text with
  | [] => none
  | c :: rest =>
    match ofMark? c with
    | some token => some (token, rest)
    | none =>
      if c = '"' then (takePieces? rest).map fun (pieces, rest) =>
        (.string ((joinPieces? pieces).map String.ofList), rest)
      else if c = 'n' then (stripWord? "null".toList text).map (.null, ·)
      else if c = 't' then (stripWord? "true".toList text).map (.bool true, ·)
      else if c = 'f' then (stripWord? "false".toList text).map (.bool false, ·)
      else
        let digits := text.takeWhile isNumeric
        if (NumberParts.ofChars? digits).isSome then
          some (.number (String.ofList digits), text.dropWhile isNumeric)
        else none

/-- The tokens of a text of at most `fuel` characters. -/
def scanWithin? : (fuel : Nat) → List Char → Option (List Token)
  | _, [] => some []
  | 0, _ => none
  | fuel + 1, c :: rest =>
    if isBlank c then scanWithin? fuel rest
    else do
      let (token, rest) ← take? (c :: rest)
      let tokens ← scanWithin? fuel rest
      return token :: tokens

/-- The tokens of a text. Every token takes at least one character. -/
def scan? (text : String) : Option (List Token) :=
  scanWithin? text.toList.length text.toList

end Token

end SparseDatasets
