import SparseDatasets.Dataset.Config
import SparseDatasets.Number.Literal

/-!
# Command line arguments

The first argument names a dataset; three figures and the options follow in any order.

- `Options`, `Command`: what a run is asked for.
- `Argument`: an argument that has been told apart from the others.
- `Argument.split?`: tells the arguments apart. Two dashes end the options, and an option that
  takes a value takes the next argument unless that is an option itself.
- `Command.ofArguments?`: the command of some arguments; there is none for wrong usage.
-/

namespace SparseDatasets

/-- The options of either dataset. -/
structure Options where
  seed : UInt64
  /-- Where to write the dataset in place of the standard output. -/
  output : Option String
  alignment : String
  logicalColumns : Bool
  /-- Whether to print the validation report. -/
  reportJson : Bool
deriving DecidableEq

/-- How the options ask the dataset to be written. -/
def Options.emission (options : Options) : EmissionConfig :=
  let config : EmissionConfig := { (default : EmissionConfig) with alignment := options.alignment }
  if options.logicalColumns then { config with columnEncoding := .logical } else config

/-- What a run is asked for. -/
inductive Command where
  | matrixVector (config : MatrixVectorConfig) (options : Options)
  | conjugateGradient (config : ConjugateGradientConfig) (options : Options)
deriving DecidableEq

/-! ## Telling arguments apart -/

/-- The options that take a value. -/
inductive ValueOption where
  | seed
  | output
  | align
deriving DecidableEq

/-- The options that stand alone. -/
inductive Flag where
  | logicalColumns
  | reportJson
deriving DecidableEq

/-- An argument that has been told apart from the others. -/
inductive Argument where
  | figure (text : String)
  | assigned (option : ValueOption) (text : String)
  | raised (flag : Flag)
deriving DecidableEq

namespace Argument

/-- The option of a long name that takes a value. -/
def longValue? : String → Option ValueOption
  | "seed" => some .seed
  | "output" => some .output
  | "align" => some .align
  | _ => none

/-- The option of a long name that stands alone. -/
def longFlag? : String → Option Flag
  | "logical-columns" => some .logicalColumns
  | "report-json" => some .reportJson
  | _ => none

/-- Whether an argument is taken for an option: a dash and something after it. -/
def looksLikeOption (text : String) : Bool :=
  match text.toList with
  | '-' :: _ :: _ => true
  | _ => false

/-- What follows the equals sign of a long option, if it has one, and its name. -/
def splitEquals (text : List Char) : String × Option String :=
  let name := String.ofList (text.takeWhile (· ≠ '='))
  match text.dropWhile (· ≠ '=') with
  | _ :: value => (name, some (String.ofList value))
  | [] => (name, none)

/-- What an argument asks for on its own. -/
inductive Shape where
  | complete (argument : Argument)
  /-- An option whose value is the next argument. -/
  | needsValue (option : ValueOption)
  /-- The end of the options. -/
  | endOfOptions

/-- What an argument asks for on its own; unknown options ask for nothing. -/
def shape? (text : String) : Option Shape :=
  match text.toList with
  | ['-', '-'] => some .endOfOptions
  | '-' :: '-' :: long =>
    let (name, value?) := splitEquals long
    match longValue? name, longFlag? name, value? with
    | some option, _, some value => some (.complete (.assigned option value))
    | some option, _, none => some (.needsValue option)
    | none, some flag, none => some (.complete (.raised flag))
    | _, _, _ => none
  | ['-', 'o'] => some (.needsValue .output)
  | '-' :: 'o' :: '=' :: value => some (.complete (.assigned .output (String.ofList value)))
  | '-' :: 'o' :: value => some (.complete (.assigned .output (String.ofList value)))
  | '-' :: _ :: _ => none
  | _ => some (.complete (.figure text))

/-- Tells the arguments apart. -/
def split? : List String → Option (List Argument)
  | [] => some []
  | text :: rest =>
    match shape? text with
    | none => none
    | some .endOfOptions => some (rest.map .figure)
    | some (.complete argument) => (split? rest).map (argument :: ·)
    | some (.needsValue option) =>
      match rest with
      | [] => none
      | value :: rest =>
        if looksLikeOption value then none
        else (split? rest).map (.assigned option value :: ·)

/-- The figures, in order. -/
def figures (arguments : List Argument) : List String :=
  arguments.filterMap fun
    | .figure text => some text
    | _ => none

/-- The values given for an option. -/
def valuesOf (option : ValueOption) (arguments : List Argument) : List String :=
  arguments.filterMap fun
    | .assigned given text => if given = option then some text else none
    | _ => none

/-- The value of an option, if it is given; it must not be given twice. -/
def value? (option : ValueOption) (arguments : List Argument) : Option (Option String) :=
  match valuesOf option arguments with
  | [] => some none
  | [text] => some (some text)
  | _ => none

/-- Whether a flag is given; it must not be given twice. -/
def flag? (flag : Flag) (arguments : List Argument) : Option Bool :=
  match arguments.count (.raised flag) with
  | 0 => some false
  | 1 => some true
  | _ => none

end Argument

/-! ## Commands -/

/-- The options among some arguments. A seed must be a number, and a path must not be empty. -/
def Options.ofArguments? (arguments : List Argument) : Option Options := do
  let seed ← match ← Argument.value? .seed arguments with
    | none => some 0
    | some text => natOfArgument? text
  let output ← Argument.value? .output arguments
  if output = some "" then none
  let alignment ← Argument.value? .align arguments
  let logicalColumns ← Argument.flag? .logicalColumns arguments
  let reportJson ← Argument.flag? .reportJson arguments
  return {
    seed := seed.toUInt64
    output
    alignment := alignment.getD (default : EmissionConfig).alignment
    logicalColumns
    reportJson }

/-- The command of some arguments. -/
def Command.ofArguments? : List String → Option Command
  | [] => none
  | name :: rest => do
    let arguments ← Argument.split? rest
    let options ← Options.ofArguments? arguments
    let [first, second, third] := Argument.figures arguments | none
    let density ← Binary64.ofArgument? third
    let first ← natOfArgument? first
    let second ← natOfArgument? second
    match name with
    | "spmv" => return .matrixVector ⟨first, second, density, options.seed⟩ options
    | "cg" => return .conjugateGradient ⟨first, second.toUInt64, density, options.seed⟩ options
    | _ => none

end SparseDatasets
