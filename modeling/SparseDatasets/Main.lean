import SparseDatasets.CommandLine.Run

/-!
# The command line program

Carries out the plan of its arguments: the file is written before anything is printed, so that a
file that cannot be written is reported like any other failure.
-/

namespace SparseDatasets

/-- Why the system refuses to write a file, with its error number. -/
def refusalText : IO.Error → String
  | .noFileOrDirectory _ code details => details ++ " (os error " ++ toString code ++ ")"
  | .permissionDenied _ code details => details ++ " (os error " ++ toString code ++ ")"
  | .inappropriateType _ code details => details ++ " (os error " ++ toString code ++ ")"
  | error => toString error

/-- Prints an outcome and gives its status. -/
def Outcome.present (outcome : Outcome) : IO UInt32 := do
  IO.eprint outcome.errors
  IO.print outcome.output
  return outcome.status.toUInt32

/-- Carries out a plan. -/
def Plan.perform (plan : Plan) : IO UInt32 := do
  let outcome := plan.carryOut fun _ => none
  match outcome.file with
  | none => outcome.present
  | some (path, text) =>
    match ← (IO.FS.writeFile path text).toBaseIO with
    | .ok () => outcome.present
    | .error error => (plan.carryOut fun _ => some (refusalText error)).present

/-- What is printed for wrong usage. -/
def usage : String :=
  "usage: spmv ROWS COLS DENSITY [OPTIONS]\n       cg SIZE STEPS DENSITY [OPTIONS]\n"

end SparseDatasets

open SparseDatasets in
def main (args : List String) : IO UInt32 := do
  match Command.ofArguments? args with
  | some command => command.plan.perform
  | none =>
    IO.eprint usage
    return 2
