import SparseDatasets.Matrix.Form
import SparseDatasets.Validation.Report

/-!
# JSON forms of reports

A report is a list of pairs of a check and its status. The names of checks and statuses are part
of the format.
-/

namespace SparseDatasets

/-- The name of a check inside a text. -/
def Check.formName : Check → String
  | .structural => "Structure"
  | .decodeEquivalence => "DecodeEquivalence"
  | .diagonalNonzero => "DiagonalNonzero"
  | .symmetry => "Symmetry"

instance : JsonForm Check where
  toJson check := .string (some check.formName)
  ofJson? json := do
    let (name, payload) ← json.variant?
    if Json.isUnit payload then Check.all.find? fun check => check.formName = name else none

instance : JsonForm Status where
  toJson
    | .passed => .string (some "Passed")
    | .failed error => .variant "Failed" (toJson error)
    | .skipped => .string (some "Skipped")
  ofJson? json := do
    let (name, payload) ← json.variant?
    match name with
    | "Passed" => if Json.isUnit payload then some .passed else none
    | "Skipped" => if Json.isUnit payload then some .skipped else none
    | "Failed" => return .failed (← ofJson? (← payload))
    | _ => none

/-- An outcome is an array of a check and its status. -/
instance : JsonForm (Check × Status) where
  toJson outcome := .array [toJson outcome.1, toJson outcome.2]
  ofJson?
    | .array [check, status] => do return (← ofJson? check, ← ofJson? status)
    | _ => none

instance : JsonForm Report where
  toJson report := .record [("outcomes", .ofList report.outcomes)]
  ofJson? json := do
    let [outcomes] ← json.fields? ["outcomes"] | none
    return ⟨← outcomes.list?⟩

end SparseDatasets
