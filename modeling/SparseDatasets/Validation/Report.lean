import SparseDatasets.Matrix.Error

/-!
# Validation reports

A report lists the checks in the order in which they ran, each with its status.

- `Check`, `Status`: the checks and what came of one.
- `Report.failures`: the failed checks with their errors, in order.
- `Report.status`: the status of a check; the first one recorded stands.
- `Report.result`: the first error, if there is one.
-/

namespace SparseDatasets

/-- The checks of a report. -/
inductive Check where
  /-- Shape and layout of the arrays. -/
  | structural
  /-- Decoding gives back the source matrix. -/
  | decodeEquivalence
  /-- No diagonal entry is zero. -/
  | diagonalNonzero
  /-- The source matrix is symmetric. -/
  | symmetry
deriving DecidableEq

namespace Check

/-- All checks, in the order in which they run. -/
def all : List Check := [.structural, .decodeEquivalence, .diagonalNonzero, .symmetry]

/-- The name of a check as it stands in messages. -/
def name : Check → String
  | .structural => "structure"
  | .decodeEquivalence => "decode-equivalence"
  | .diagonalNonzero => "diagonal-nonzero"
  | .symmetry => "symmetry"

end Check

/-- What came of a check. -/
inductive Status where
  | passed
  | failed (error : MatrixError)
  | skipped
deriving DecidableEq

namespace Status

/-- The status of a check that ran. -/
def ofResult : Except MatrixError Unit → Status
  | .ok () => .passed
  | .error error => .failed error

/-- The error of a failed check. -/
def error? : Status → Option MatrixError
  | .failed error => some error
  | _ => none

end Status

/-- The checks that ran or were skipped, in order. -/
structure Report where
  outcomes : List (Check × Status)
deriving DecidableEq

namespace Report

/-- The failed checks with their errors, in order. -/
def failures (report : Report) : List (Check × MatrixError) :=
  report.outcomes.filterMap fun (check, status) => status.error?.map fun error => (check, error)

/-- No check failed. -/
def isOk (report : Report) : Bool := report.failures.isEmpty

/-- The status recorded first for a check; a check that is not recorded was skipped. -/
def status (report : Report) (check : Check) : Status :=
  ((report.outcomes.find? fun outcome => outcome.1 = check).map (·.2)).getD .skipped

/-- The first error. -/
def result (report : Report) : Except MatrixError Unit :=
  match report.failures with
  | [] => .ok ()
  | (_, error) :: _ => .error error

end Report

end SparseDatasets
