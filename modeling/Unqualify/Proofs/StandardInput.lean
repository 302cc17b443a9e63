import Unqualify.Program
import Unqualify.Proofs.Agreement
import Unqualify.Proofs.Batch.Processing

/-!
# The unit on the standard input

A call that reads the standard input transforms one unit and leaves all files alone. It succeeds
exactly when the input is text, its language is known and the unit can be transformed, and only then
it writes anything (`transformInput_outcome`).

When there is nothing to edit, the octets that are written are those that were read, whatever line
ends are among them (`unedited_input_copied`). In the same way a file with such a unit is left as it
is.
-/

set_option autoImplicit false

namespace Unqualify

/-! ## Units without edits -/

namespace SourceUnit

/-- The edits of a unit are planned, and there are none. -/
def Unedited (unit : SourceUnit) (parser : Parser) (options : Options) : Prop :=
  ∃ planned,
    PlannedImport.plan (.ofReferences (unit.references parser options))
      (unit.removed parser options) options.moduleName = .ok planned ∧
    unit.editsFor parser options planned = []

theorem transform_of_unedited {unit : SourceUnit} {parser : Parser} {options : Options}
    (sound : (unit.root parser).label.faulty = false) (unedited : unit.Unedited parser options) :
    unit.transform parser options = .ok ⟨unit.text, unit.text, {}, 0, 0⟩ := by
  obtain ⟨noReferences, noneRemoved⟩ := exists_plan_editsFor_eq_nil_iff.mp unedited
  exact transform_eq_self sound noReferences noneRemoved

end SourceUnit

/-- A file whose unit has no edits is left as it is. -/
theorem Batch.process_of_unedited {batch : Batch} {parser : Parser} {files : FileSystem}
    {file : String} {unit : SourceUnit} (held : files.unit file none = .ok unit)
    (sound : (unit.root parser).label.faulty = false)
    (unedited : unit.Unedited parser batch.options) :
    (batch.process parser files file).result =
      ⟨files, batch.resultOf file ⟨unit.text, unit.text, {}, 0, 0⟩⟩ := by
  rw [result_process, FileSystem.result_transform held,
    SourceUnit.transform_of_unedited sound unedited]
  exact settle_of_not_moved fun moved => moved.1 rfl

namespace Program

/-! ## Calls that read the standard input -/

/-- The unit of a text on the standard input. -/
def inputUnit (language : Language) (text : String) : SourceUnit where
  file := standardInputName
  language := language
  text := text

section

variable {parser : Parser} {call : Call} {arguments : Arguments} {settings : Settings}
  {options : Options}

theorem run_of_parse
    (accepted : Arguments.parse call.arguments call.dropsSeparator = .ok arguments) :
    run parser call = act parser call arguments := by
  rw [run, accepted]

theorem act_of_stdin (resolved : Settings.resolve call.environment arguments = .ok settings)
    (fromInput : arguments.stdin = true) :
    act parser call arguments = transformInput parser call arguments settings.toOptions := by
  rw [act, resolved]
  simp only [fromInput, if_true]

/-- The standard input is text in a known language, and the transform of its unit succeeds. -/
def InputBecomes (parser : Parser) (call : Call) (arguments : Arguments) (options : Options)
    (transformed : Transformed) : Prop :=
  ∃ text language, call.standardInput = Utf8.encode text ∧
    arguments.stdinLanguage = .value language ∧
    (inputUnit language text).transform parser options = .ok transformed

theorem transformInput_of_success {transformed : Transformed}
    (becomes : InputBecomes parser call arguments options transformed) :
    let outcome := transformInput parser call arguments options
    outcome.exitCode = 0 ∧ outcome.output = transformed.output ∧ outcome.files = call.files := by
  obtain ⟨text, language, input, spoken, success⟩ := becomes
  intro outcome
  have read := Utf8.decode_eq_ok_iff.mpr input
  have result := (SourceUnit.result_transformTraced (inputUnit language text) parser options).trans
    success
  unfold inputUnit at result
  simp only [outcome, transformInput, read, spoken, result, and_self]

/-- A call whose input is not transformed writes nothing and fails, though not as invalid input
does. -/
theorem transformInput_of_failure
    (fails : ∀ transformed, ¬ InputBecomes parser call arguments options transformed) :
    let outcome := transformInput parser call arguments options
    (outcome.exitCode = 2 ∨ outcome.exitCode = 5) ∧ outcome.output = "" ∧
      outcome.files = call.files := by
  intro outcome
  simp only [outcome, transformInput]
  split
  next => exact ⟨.inr rfl, rfl, rfl⟩
  next text read =>
    split
    next => exact ⟨.inr rfl, rfl, rfl⟩
    next language spoken =>
      split
      next => exact ⟨.inr rfl, rfl, rfl⟩
      next => exact ⟨.inl rfl, rfl, rfl⟩
      next transformed success =>
        rw [SourceUnit.result_transformTraced] at success
        exact absurd ⟨text, language, Utf8.decode_eq_ok_iff.mp read, spoken, success⟩
          (fails transformed)

/-- **What becomes of a call that reads the standard input.** It leaves all files alone. Its exit
code is 0 exactly when the input is transformed, and then it writes the outcome; otherwise it writes
nothing. -/
theorem transformInput_outcome (parser : Parser) (call : Call) (arguments : Arguments)
    (options : Options) :
    let outcome := transformInput parser call arguments options
    outcome.files = call.files ∧ outcome.exitCode ≠ 1 ∧
      (outcome.exitCode ≠ 0 → outcome.output = "") ∧
      (outcome.exitCode = 0 ↔
        ∃ transformed, InputBecomes parser call arguments options transformed) ∧
      ∀ transformed, InputBecomes parser call arguments options transformed →
        outcome.output = transformed.output := by
  intro outcome
  by_cases succeeds : ∃ transformed, InputBecomes parser call arguments options transformed
  · obtain ⟨transformed, becomes⟩ := succeeds
    obtain ⟨zero, _, files⟩ := transformInput_of_success becomes
    exact ⟨files, fun one => absurd (zero.symm.trans one) (by decide),
      fun other => absurd zero other,
      iff_of_true zero ⟨transformed, becomes⟩,
      fun _ becomes => (transformInput_of_success becomes).2.1⟩
  · have fails : ∀ transformed, ¬ InputBecomes parser call arguments options transformed :=
      not_exists.mp succeeds
    obtain ⟨exitCode, output, files⟩ : (outcome.exitCode = 2 ∨ outcome.exitCode = 5) ∧ _ :=
      transformInput_of_failure fails
    have neither : outcome.exitCode ≠ 1 ∧ outcome.exitCode ≠ 0 := by
      omega
    exact ⟨files, neither.1, fun _ => output, iff_of_false neither.2 succeeds,
      fun transformed becomes => absurd becomes (fails transformed)⟩

end

/-- A call whose unit on the standard input has no edits writes the text of the unit. -/
theorem run_of_unedited {parser : Parser} {call : Call} {arguments : Arguments}
    {settings : Settings} {language : Language} {text : String}
    (accepted : Arguments.parse call.arguments call.dropsSeparator = .ok arguments)
    (resolved : Settings.resolve call.environment arguments = .ok settings)
    (fromInput : arguments.stdin = true) (spoken : arguments.stdinLanguage = .value language)
    (input : call.standardInput = Utf8.encode text)
    (sound : ((inputUnit language text).root parser).label.faulty = false)
    (unedited : (inputUnit language text).Unedited parser settings.toOptions) :
    let outcome := run parser call
    outcome.exitCode = 0 ∧ outcome.output = text ∧ outcome.files = call.files := by
  have success := SourceUnit.transform_of_unedited sound unedited
  rw [run_of_parse accepted, act_of_stdin resolved fromInput]
  exact transformInput_of_success ⟨text, language, input, spoken, success⟩

/-- **When nothing is edited, the standard input is copied octet by octet.** For every accepted call
that reads a unit without faults and without edits from the standard input, the exit code is 0 and
the octets of the output are those of the input. A file with such a unit keeps its octets as
well. -/
theorem unedited_input_copied (parser : Parser) :
    (∀ (call : Call) (arguments : Arguments) (settings : Settings) (language : Language)
        (text : String),
      Arguments.parse call.arguments call.dropsSeparator = .ok arguments →
      Settings.resolve call.environment arguments = .ok settings →
      arguments.stdin = true → arguments.stdinLanguage = .value language →
      call.standardInput = Utf8.encode text →
      ((inputUnit language text).root parser).label.faulty = false →
      (inputUnit language text).Unedited parser settings.toOptions →
      let outcome := run parser call
      outcome.exitCode = 0 ∧ Utf8.encode outcome.output = call.standardInput ∧
        outcome.files = call.files) ∧
    ∀ (batch : Batch) (files : FileSystem) (file : String) (unit : SourceUnit),
      files.unit file none = .ok unit → (unit.root parser).label.faulty = false →
      unit.Unedited parser batch.options →
      let processed := (batch.process parser files file).result
      processed.files = files ∧ processed.result.status = .unmodified := by
  constructor
  · intro call arguments settings language text accepted resolved fromInput spoken input sound
      unedited
    obtain ⟨exitCode, output, files⟩ :=
      run_of_unedited accepted resolved fromInput spoken input sound unedited
    exact ⟨exitCode, output ▸ input.symm, files⟩
  · intro batch files file unit held sound unedited processed
    have left : processed = _ := Batch.process_of_unedited held sound unedited
    rw [left]
    exact ⟨rfl, by simp [Batch.resultOf, Transformed.changed]⟩

end Program

namespace Sample

/-- The tree of a unit with a call and a line end of two characters, in which nothing is
qualified. -/
def idRoot : Node :=
  branch "program" 0 10 [
    branch "expression_statement" 0 8 [
      branch "call_expression" 0 7 [
        filling "function" "identifier" 0 5 [],
        filling "arguments" "arguments" 5 7 [token "(" 5 6, token ")" 6 7]],
      token ";" 7 8]]

def idParser : Parser :=
  fun _ _ _ => ⟨idRoot, fun _ => true⟩

/-- A call that reads a text from the standard input. -/
def inputCall (text : String) : Call where
  arguments := ["--stdin"]
  standardInput := Utf8.encode text

theorem parse_stdin : Arguments.parse ["--stdin"] = .ok { stdin := true } := by
  decide +kernel

theorem resolve_stdin : Settings.resolve (fun _ => none) { stdin := true } = .ok {} := by
  rfl

/-- There is nothing to edit in the unit. -/
theorem unedited_id : (Program.inputUnit .tsx "useId();\r\n").Unedited idParser {} := by
  refine SourceUnit.exists_plan_editsFor_eq_nil_iff.mpr ?_
  decide +kernel

end Sample

namespace Program

/-- A line end of two characters is copied as it is. -/
theorem unedited_input_copied_carriageReturn :
    let call := Sample.inputCall "useId();\r\n"
    (run Sample.idParser call).exitCode = 0 ∧
      Utf8.encode (run Sample.idParser call).output = call.standardInput ∧
      call.standardInput = "useId();".toUTF8.toList ++ [0x0D, 0x0A] := by
  intro call
  obtain ⟨exitCode, copied, _⟩ := (unedited_input_copied Sample.idParser).1 call _ _ .tsx
    "useId();\r\n" Sample.parse_stdin Sample.resolve_stdin rfl rfl rfl rfl Sample.unedited_id
  exact ⟨exitCode, copied, by decide +kernel⟩

end Program

end Unqualify
