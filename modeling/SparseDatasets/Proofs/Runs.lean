import SparseDatasets.CommandLine.Run
import SparseDatasets.Proofs.ConjugateGradient
import SparseDatasets.Proofs.Scattering
import SparseDatasets.Proofs.Truncation

/-!
# Runs write everything or nothing

An emission may fail behind its first lines, and an output that was given these would keep them. A
run gives the lines to an output of its own first, and only a text that is complete goes where the
options say. So a run that fails leaves the standard output and all files as they were.

- `World`: what a run can change; `Outcome.applyTo`: what an outcome changes of it.
- `Plan.Fails`, `Plan.Writes`: the two kinds of plans; their `carryOut` lemmas say what comes of
  them.
- `Plan.planOf_cases`, `Command.plan_cases`: which kind a plan is of, by what was generated and how
  its emission ends.
- `Command.applyTo_carryOut`: **a run writes the whole text once and in one place, or nothing.**
-/

namespace SparseDatasets

/-! ## What a run can change -/

/-- What was printed to the standard output, and the files. -/
structure World where
  output : ByteArray
  files : String → Option ByteArray

namespace World

/-- More is printed to the standard output. -/
def print (world : World) (bytes : ByteArray) : World :=
  { world with output := world.output ++ bytes }

/-- A file is written, whatever it held before. -/
def write (world : World) (path : String) (bytes : ByteArray) : World :=
  { world with files := fun other => if other = path then some bytes else world.files other }

theorem print_empty (world : World) : world.print .empty = world := by
  rw [print, ByteArray.append_empty]

end World

/-- What an outcome leaves of a world. -/
def Outcome.applyTo (outcome : Outcome) (world : World) : World :=
  match outcome.file with
  | none => world.print outcome.output.toUTF8
  | some (path, text) => (world.print outcome.output.toUTF8).write path text.toUTF8

/-! ## Plans -/

namespace Plan

/-- Nothing is written, and the run ends with this status. -/
def Fails (status : Nat) (plan : Plan) : Prop :=
  ∃ report message, plan = ⟨report, .error ⟨status, message⟩⟩

/-- The text is written where the options say. -/
def Writes (options : Options) (text : ByteArray) (plan : Plan) : Prop :=
  ∃ report content, content.toUTF8 = text ∧ plan = ⟨report, .ok (options.destination, content)⟩

variable {plan : Plan} {options : Options} {status : Nat}

theorem Fails.carryOut (h : plan.Fails status) (refusal : String → Option String) (world : World) :
    (plan.carryOut refusal).status = status ∧ (plan.carryOut refusal).applyTo world = world := by
  obtain ⟨report, message, rfl⟩ := h
  exact ⟨rfl, world.print_empty⟩

/-- The standard output takes any text, and a file unless it is refused. -/
theorem Writes.carryOut {text : ByteArray} (h : plan.Writes options text)
    (refusal : String → Option String) (world : World) :
    (options.output = none ∧ (plan.carryOut refusal).status = 0 ∧
        (plan.carryOut refusal).applyTo world = world.print text) ∨
      ∃ path, options.output = some path ∧
        (refusal path = none ∧ (plan.carryOut refusal).status = 0 ∧
            (plan.carryOut refusal).applyTo world = world.write path text ∨
          (∃ reason, refusal path = some reason) ∧ (plan.carryOut refusal).status = 1 ∧
            ((plan.carryOut refusal).applyTo world).output = world.output) := by
  obtain ⟨report, content, rfl, rfl⟩ := h
  cases houtput : options.output with
  | none =>
    have hdestination : options.destination = .standardOutput := by
      rw [Options.destination, houtput]
    rw [hdestination]
    exact .inl ⟨rfl, rfl, rfl⟩
  | some path =>
    have hdestination : options.destination = .file path := by
      rw [Options.destination, houtput]
    rw [hdestination]
    refine .inr ⟨path, rfl, ?_⟩
    cases hrefusal : refusal path with
    | none =>
      -- all that is printed is the empty text
      refine .inl ⟨rfl, ?_⟩
      rw [Plan.carryOut]
      dsimp only
      rw [hrefusal]
      exact ⟨rfl, congrArg (World.write · path content.toUTF8) world.print_empty⟩
    | some reason =>
      refine .inr ⟨⟨reason, rfl⟩, ?_⟩
      rw [Plan.carryOut]
      dsimp only
      rw [hrefusal]
      exact ⟨rfl, congrArg World.output world.print_empty⟩

/-- A plan fails if there is no dataset. -/
theorem fails_planOf (options : Options) (generating emitting : String) (error : DatasetError) :
    (planOf options generating emitting (.ok (.error error))).Fails 1 := ⟨_, _, rfl⟩

/-- A plan aborts if generation does. -/
theorem aborts_planOf (options : Options) (generating emitting : String) (fault : AccessFault) :
    (planOf options generating emitting (.error fault)).Fails 101 := ⟨_, _, rfl⟩

/-- A plan that goes by an emission fails if the emission does, and else writes its text. -/
theorem planOf_cases (options : Options) (generating emitting : String) (report : Report)
    (emission : Emission) :
    let plan := planOf options generating emitting (.ok (.ok ⟨report, emission.script⟩))
    (∃ error, emission.result options.emission = .error error) ∧ plan.Fails 1 ∨
      emission.result options.emission = .ok () ∧
        plan.Writes options (emission.text options.emission) := by
  intro plan
  have hplan : plan = planOf options generating emitting (.ok (.ok ⟨report, emission.script⟩)) :=
    rfl
  rw [Emission.result_eq_elim]
  cases herror : (emission.script options.emission).error? with
  | some error =>
    refine .inl ⟨⟨error, rfl⟩, ?_⟩
    rw [hplan, planOf]
    dsimp only
    rw [herror]
    exact ⟨_, _, rfl⟩
  | none =>
    refine .inr ⟨rfl, ?_⟩
    rw [hplan, planOf]
    dsimp only
    rw [herror]
    exact ⟨_, _, (Emission.text_eq _ _).symm, rfl⟩

end Plan

/-! ## Commands -/

namespace Command

/-- The options of a command. -/
def options : Command → Options
  | matrixVector _ options => options
  | conjugateGradient _ options => options

/-- The dataset that a command asks for. -/
def generated : Command → Except AccessFault (Except DatasetError Emission)
  | matrixVector config _ =>
    (MatrixVector.generate ChaCha Binary64 config).map fun outcome => outcome.map .matrixVector
  | conjugateGradient config _ =>
    (ConjugateGradient.generate ChaCha Binary64 config).map fun outcome =>
      outcome.map .conjugateGradient

/-- So many rows are asked for that a word cannot count the pointers to them. -/
def Uncountable (command : Command) : Prop :=
  ∃ config options, command = matrixVector config options ∧ wordLimit ≤ config.rows + 1

/-- Generation comes to an end wherever a word can count the row pointers. -/
theorem uncountable_of_generated_eq_error {command : Command} {fault : AccessFault}
    (h : command.generated = .error fault) : command.Uncountable := by
  cases command with
  | matrixVector config options =>
    refine ⟨config, options, rfl, Nat.le_of_not_lt fun hfew => ?_⟩
    obtain ⟨outcome, hgenerate, -⟩ := MatrixVector.generateWith_cases
      (Draw.subset_samples : Draw.Samples (Draw.subset : Draw.Sampler ChaCha)) config fun _ => hfew
    have hgenerate : MatrixVector.generate ChaCha Binary64 config = .ok outcome := hgenerate
    rw [generated, hgenerate] at h
    cases h
  | conjugateGradient config options =>
    obtain ⟨outcome, hgenerate⟩ := ConjugateGradient.exists_generate_eq ChaCha config
    rw [generated, hgenerate] at h
    cases h

/-- The plan of a command fails if there is no dataset, and else goes by how that is emitted. -/
theorem plan_cases (command : Command) :
    (∃ fault, command.generated = .error fault) ∧ command.plan.Fails 101 ∨
      (∃ error, command.generated = .ok (.error error)) ∧ command.plan.Fails 1 ∨
      ∃ emission, command.generated = .ok (.ok emission) ∧
        ((∃ error, emission.result command.options.emission = .error error) ∧
            command.plan.Fails 1 ∨
          emission.result command.options.emission = .ok () ∧
            command.plan.Writes command.options (emission.text command.options.emission)) := by
  cases command with
  | matrixVector config options =>
    rw [plan, generated]
    rcases MatrixVector.generate ChaCha Binary64 config with fault | error | dataset
    · exact .inl ⟨⟨fault, rfl⟩, Plan.aborts_planOf ..⟩
    · exact .inr (.inl ⟨⟨error, rfl⟩, Plan.fails_planOf ..⟩)
    · exact .inr (.inr ⟨_, rfl, Plan.planOf_cases _ _ _ dataset.report (.matrixVector dataset)⟩)
  | conjugateGradient config options =>
    rw [plan, generated]
    rcases ConjugateGradient.generate ChaCha Binary64 config with fault | error | dataset
    · exact .inl ⟨⟨fault, rfl⟩, Plan.aborts_planOf ..⟩
    · exact .inr (.inl ⟨⟨error, rfl⟩, Plan.fails_planOf ..⟩)
    · exact .inr (.inr
        ⟨_, rfl, Plan.planOf_cases _ _ _ dataset.report (.conjugateGradient dataset)⟩)

/-- **A run writes the whole text once and in one place, or nothing.** If no dataset is generated,
or its emission fails, however late, the run fails and the world stays as it was. Else the run
writes what the emission leaves on an unlimited output, the columns encoded and the arrays aligned
as the flags say: behind what was printed before if no file is named, and the file is not touched;
else as all that the file holds, and nothing is printed. A file that is refused fails the run. Only
for a matrix of so many rows that no memory can hold it, generation may abort, and the world stays
as it was then, too. -/
theorem applyTo_carryOut (command : Command) (refusal : String → Option String) (world : World) :
    (command.options.emission = ⟨command.options.alignment,
        if command.options.logicalColumns = true then .logical else .byteOffset 8⟩) ∧
      (((∃ error, command.generated = .ok (.error error)) ∨
          ∃ emission error, command.generated = .ok (.ok emission) ∧
            emission.result command.options.emission = .error error) ∧
        (command.plan.carryOut refusal).status = 1 ∧
          (command.plan.carryOut refusal).applyTo world = world ∨
      (∃ fault, command.generated = .error fault) ∧ command.Uncountable ∧
        (command.plan.carryOut refusal).status = 101 ∧
          (command.plan.carryOut refusal).applyTo world = world ∨
      ∃ emission, command.generated = .ok (.ok emission) ∧
        emission.result command.options.emission = .ok () ∧
        ((command.options.output = none ∧ (command.plan.carryOut refusal).status = 0 ∧
            (command.plan.carryOut refusal).applyTo world =
              world.print (emission.text command.options.emission)) ∨
          ∃ path, command.options.output = some path ∧
            (refusal path = none ∧ (command.plan.carryOut refusal).status = 0 ∧
                (command.plan.carryOut refusal).applyTo world =
                  world.write path (emission.text command.options.emission) ∨
              (∃ reason, refusal path = some reason) ∧
                (command.plan.carryOut refusal).status = 1 ∧
                ((command.plan.carryOut refusal).applyTo world).output = world.output))) := by
  constructor
  · rw [Options.emission]
    cases command.options.logicalColumns <;> rfl
  · obtain ⟨⟨fault, hfault⟩, hfails⟩ | ⟨herror, hfails⟩ | ⟨emission, hgenerated, hemitted⟩ :=
      command.plan_cases
    · exact .inr (.inl ⟨⟨fault, hfault⟩, uncountable_of_generated_eq_error hfault,
        hfails.carryOut refusal world⟩)
    · exact .inl ⟨.inl herror, hfails.carryOut refusal world⟩
    · obtain ⟨⟨error, herror⟩, hfails⟩ | ⟨hok, hwrites⟩ := hemitted
      · exact .inl ⟨.inr ⟨emission, error, hgenerated, herror⟩, hfails.carryOut refusal world⟩
      · exact .inr (.inr ⟨emission, hgenerated, hok, hwrites.carryOut refusal world⟩)

end Command

end SparseDatasets
