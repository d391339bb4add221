import SparseDatasets.CommandLine.Arguments
import SparseDatasets.Dataset.ConjugateGradient
import SparseDatasets.Dataset.MatrixVector
import SparseDatasets.Random.ChaCha
import SparseDatasets.Validation.Form

/-!
# Runs of the command line

A run is decided in full before any of it is carried out: its plan says what goes to the error
output first, and then either why the run fails or the one text that is written and where it
goes. So a run that fails has written no part of a dataset.

- `Plan`, `Command.plan`: the plan of a command.
- `Outcome`, `Plan.carryOut`: what comes of a plan, given which files can be written.
- `runArguments`: from arguments to outcome.
-/

namespace SparseDatasets

/-- Where a dataset goes. -/
inductive Destination where
  | standardOutput
  | file (path : String)
deriving DecidableEq

/-- Why a run fails, and the status that it ends with. -/
structure Failure where
  status : Nat
  message : String
deriving DecidableEq

/-- What a run does: it prints a report, perhaps an empty one, and then fails or writes. -/
structure Plan where
  report : String
  result : Except Failure (Destination × String)

/-- A generated dataset as far as a run is concerned: its report and how it is written. -/
structure Rendering where
  report : Report
  script : EmissionConfig → Script

/-- A failure with its message, behind what the run was doing. -/
def Failure.during (activity message : String) : Failure :=
  ⟨1, "Error: " ++ activity ++ ": " ++ message ++ "\n"⟩

/-- The report as it is printed, if it is asked for. -/
def Options.reportText (options : Options) (report : Report) : String :=
  if options.reportJson then JsonForm.prettyText report ++ "\n" else ""

/-- The report of a rejected dataset; no other error has one. -/
def DatasetError.report? : DatasetError → Option Report
  | .validation _ report => some report
  | _ => none

/-- Where the options send the dataset. -/
def Options.destination (options : Options) : Destination :=
  match options.output with
  | some path => .file path
  | none => .standardOutput

/-- The plan of a run, given what was generated and how to name the two activities. A missing
cell, which no source leaves, ends the run at once. -/
def planOf (options : Options) (generating emitting : String)
    (generated : Except AccessFault (Except DatasetError Rendering)) : Plan :=
  match generated with
  | .error _ => ⟨"", .error ⟨101, ""⟩⟩
  | .ok (.error error) =>
    ⟨(error.report?.map options.reportText).getD "", .error (.during generating error.trail)⟩
  | .ok (.ok rendering) =>
    let script := rendering.script options.emission
    { report := options.reportText rendering.report
      result := match script.error? with
        | some error => .error (.during emitting error.trail)
        | none => .ok (options.destination, script.text) }

/-- The plan of a command. -/
def Command.plan : Command → Plan
  | .matrixVector config options =>
    planOf options ("generating " ++ shapeText config.rows config.cols ++ " SpMV dataset")
      "emitting SpMV dataset"
      ((MatrixVector.generate ChaCha Binary64 config).map fun outcome =>
        outcome.map fun dataset => ⟨dataset.report, dataset.script⟩)
  | .conjugateGradient config options =>
    planOf options ("generating size " ++ toString config.size ++ " CG dataset")
      "emitting CG dataset"
      ((ConjugateGradient.generate ChaCha Binary64 config).map fun outcome =>
        outcome.map fun dataset => ⟨dataset.report, dataset.script⟩)

/-! ## Outcomes -/

/-- What comes of a run. -/
structure Outcome where
  status : Nat
  output : String
  errors : String
  /-- The file that is written, and its content. -/
  file : Option (String × String)
deriving DecidableEq

/-- Carries out a plan. `refusal path` says why the file cannot be written, if it cannot. -/
def Plan.carryOut (refusal : String → Option String) (plan : Plan) : Outcome :=
  match plan.result with
  | .error failure => ⟨failure.status, "", plan.report ++ failure.message, none⟩
  | .ok (.standardOutput, text) => ⟨0, text, plan.report, none⟩
  | .ok (.file path, text) =>
    match refusal path with
    | none => ⟨0, "", plan.report, some (path, text)⟩
    | some reason =>
      ⟨1, "", plan.report ++ (Failure.during ("writing " ++ path) reason).message, none⟩

/-- The outcome of some arguments; there is none for wrong usage. -/
def runArguments (refusal : String → Option String) (arguments : List String) : Option Outcome :=
  (Command.ofArguments? arguments).map fun command => command.plan.carryOut refusal

end SparseDatasets
