import SparseDatasets.Json.Reader
import SparseDatasets.Number.Text

/-!
# JSON forms

How the values of the library are written to JSON and read from it.

- `JsonForm`: types with a JSON form.
- `Json.record`, `Json.fields?`: records are objects with their fields in order; an array of all
  fields in order is read as well, and unknown members are passed over.
- `Json.variant`, `Json.variant?`: a variant without fields is its name, any other is an object
  with the name as its only key.
-/

namespace SparseDatasets

/-- Types with a JSON form. -/
class JsonForm (α : Type) where
  toJson : α → Json
  ofJson? : Json → Option α

export JsonForm (toJson ofJson?)

/-- The compact text of a value. -/
def JsonForm.text {α : Type} [JsonForm α] (x : α) : String := (toJson x).render .compact

/-- The text of a value with one item a line. -/
def JsonForm.prettyText {α : Type} [JsonForm α] (x : α) : String := (toJson x).render .pretty

/-- Reads a value from a text. -/
def JsonForm.ofText? {α : Type} [JsonForm α] (text : String) : Option α :=
  (Json.parse? text).bind ofJson?

namespace Json

/-! ## Records and variants -/

/-- A record: its fields by name, in order. -/
def record (fields : List (String × Json)) : Json :=
  .object (fields.map fun (name, value) => (some name, value))

/-- The value of the one member of the given name. -/
def member? (members : List (Option String × Json)) (name : String) : Option Json :=
  match members.filter fun entry => entry.1 = some name with
  | [(_, value)] => some value
  | _ => none

/-- The fields of a record, in the order of their names: from an object that has each of them
once, or from an array of exactly so many items. -/
def fields? (names : List String) : Json → Option (List Json)
  | .object members =>
    if members.all fun entry => entry.1.isSome then names.mapM (member? members) else none
  | .array items => if items.length = names.length then some items else none
  | _ => none

/-- A variant that has a payload. -/
def variant (name : String) (payload : Json) : Json := .object [(some name, payload)]

/-- The name of a variant and its payload, if it has one. -/
def variant? : Json → Option (String × Option Json)
  | .string (some name) => some (name, none)
  | .object [(some name, payload)] => some (name, some payload)
  | _ => none

/-- Whether the payload of a variant is that of one without fields: nothing, or null. -/
def isUnit : Option Json → Bool
  | none => true
  | some .null => true
  | _ => false

/-! ## Lists -/

/-- An array of the forms of some values. -/
def ofList {α : Type} [JsonForm α] (xs : List α) : Json := .array (xs.map toJson)

/-- Reads an array of values. -/
def list? {α : Type} [JsonForm α] : Json → Option (List α)
  | .array items => items.mapM ofJson?
  | _ => none

/-! ## Numbers -/

/-- The number of an integer. -/
def ofInt (n : Int) : Json :=
  .number (if n < 0 then "-" ++ toString n.natAbs else toString n.natAbs)

/-- The parts of a number. -/
def numberParts? : Json → Option NumberParts
  | .number text => NumberParts.ofChars? text.toList
  | _ => none

/-- Reads an integer from `least` to `greatest`; it must be written as one. -/
def int? (least greatest : Int) (json : Json) : Option Int :=
  (json.numberParts?.bind NumberParts.integer?).filter fun n => least ≤ n ∧ n ≤ greatest

/-- Reads a natural number below a limit. -/
def natBelow? (limit : Nat) (json : Json) : Option Nat :=
  (json.int? 0 ((limit : Int) - 1)).map Int.toNat

end Json

/-- Sizes and positions are words of sixty-four bits. -/
instance : JsonForm Nat where
  toJson n := .ofInt n
  ofJson? json := json.natBelow? UInt64.size

instance : JsonForm UInt32 where
  toJson n := .ofInt n.toNat
  ofJson? json := (json.natBelow? UInt32.size).map Nat.toUInt32

instance : JsonForm Int32 where
  toJson n := .ofInt n.toInt
  ofJson? json := (json.int? Int32.minValue.toInt Int32.maxValue.toInt).map Int32.ofInt

instance : JsonForm Int64 where
  toJson n := .ofInt n.toInt
  ofJson? json := (json.int? Int64.minValue.toInt Int64.maxValue.toInt).map Int64.ofInt

/-- A finite double is a number and every other one is null. A null is not read back, and
neither is a number too large for a double. -/
instance : JsonForm Binary64 where
  toJson x := match x.literal? with
    | some text => .number text
    | none => .null
  ofJson? json := (json.numberParts?.map fun parts => parts.literal.toBinary64).filter
    fun x => !x.isInfinite

/-- Written as its own shortest digits. An integer in the range of words is rounded once, any
other number first to a double and then to single precision. -/
instance : JsonForm Binary32 where
  toJson x := match x.literal? with
    | some text => .number text
    | none => .null
  ofJson? json := match json.int? Int64.minValue.toInt (UInt64.size - 1) with
    | some n => some (.ofInt n)
    | none => (ofJson? json : Option Binary64).map Binary64.toBinary32

instance : JsonForm String where
  toJson content := .string (some content)
  ofJson?
    | .string content => content
    | _ => none

end SparseDatasets
