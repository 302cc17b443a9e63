import Mathlib.Algebra.GroupWithZero.Nat
import Unqualify.Proofs.Batch.Found
import Unqualify.Proofs.StandardInput

/-!
# What the exit code says

Once its arguments are accepted, the course of a call is decided step by step: by the settings, by
whether the standard input is read, by whether there are paths, by the first path that leads nowhere
(`StopsAt`), and by whether the directories at the paths can be walked. Nothing is written before
all of this is settled, so an exit code of 1 means that nothing was changed and nothing was put out
(`act_of_exitCode_one`).

A path that leads nowhere is invalid input if there is nothing at it. If it cannot even be looked
up, because it is too long or a directory on the way lets no name be looked up, that is an
unexpected failure with an exit code of its own, and so is a walk that cannot look up what it comes
to. When all paths can be walked the run goes through, and its exit code says whether some file
failed (`exit_code_tells`).
-/

set_option autoImplicit false

namespace Unqualify

/-! ## The first path that leads nowhere -/

namespace FileSystem

/-- `path` is the first of the paths that leads nowhere, and `obstacle` is the reason. -/
def StopsAt (files : FileSystem) (paths : List String) (path : String) (obstacle : Obstacle) :
    Prop :=
  ∃ before after, paths = before ++ path :: after ∧
    (∀ text ∈ before, ∃ location, files.Denotes text location) ∧
    files.locate (Path.ofText path) = .error obstacle

section

variable {files : FileSystem} {paths : List String} {path : String} {obstacle : Obstacle}

/-- Either all paths lead somewhere, or there is a first one that does not. -/
theorem present_or_stopsAt (files : FileSystem) (paths : List String) :
    (∀ text ∈ paths, ∃ location, files.Denotes text location) ∨
      ∃ path obstacle, files.StopsAt paths path obstacle := by
  induction paths with
  | nil => exact .inl nofun
  | cons text rest ih =>
      cases located : files.locate (Path.ofText text) with
      | error obstacle => exact .inr ⟨text, obstacle, [], rest, rfl, nofun, located⟩
      | ok location =>
          have denotes : ∃ location, files.Denotes text location := ⟨location, located⟩
          rcases ih with present | ⟨path, obstacle, before, after, rfl, present, stopped⟩
          · exact .inl (List.forall_mem_cons.mpr ⟨denotes, present⟩)
          · exact .inr ⟨path, obstacle, text :: before, after, rfl,
              List.forall_mem_cons.mpr ⟨denotes, present⟩, stopped⟩

/-- If one of the paths leads nowhere and all can be looked up, there is nothing at the first that
leads nowhere. -/
theorem exists_stopsAt_absence (absent : path ∈ paths)
    (nowhere : ∀ location, ¬ files.Denotes path location)
    (shown : ∀ text ∈ paths, ∀ obstacle, files.locate (Path.ofText text) = .error obstacle →
      obstacle.isAbsence = true) :
    ∃ first obstacle, files.StopsAt paths first obstacle ∧ obstacle.isAbsence = true := by
  rcases files.present_or_stopsAt paths with present | ⟨first, obstacle, stops⟩
  · obtain ⟨location, denotes⟩ := present path absent
    exact absurd denotes (nowhere location)
  · obtain ⟨before, after, rfl, _, stopped⟩ := id stops
    exact ⟨first, obstacle, stops, shown first (by simp) obstacle stopped⟩

theorem firstMissing?_append {before : List String}
    (present : ∀ text ∈ before, ∃ location, files.Denotes text location) (rest : List String) :
    files.firstMissing? (before ++ rest) = files.firstMissing? rest := by
  induction before with
  | nil => rfl
  | cons text before ih =>
      obtain ⟨⟨location, located⟩, others⟩ := List.forall_mem_cons.mp present
      have contained : files.contains (Path.ofText text) = .ok true := by
        rw [contains, located]
      rw [List.cons_append, firstMissing?, contained]
      exact ih others

theorem firstMissing?_of_present
    (present : ∀ text ∈ paths, ∃ location, files.Denotes text location) :
    files.firstMissing? paths = .ok none := by
  have skipped := firstMissing?_append present []
  rwa [List.append_nil] at skipped

theorem firstMissing?_of_absence (stops : files.StopsAt paths path obstacle)
    (absence : obstacle.isAbsence = true) : files.firstMissing? paths = .ok (some path) := by
  obtain ⟨before, after, rfl, present, stopped⟩ := stops
  have absent : files.contains (Path.ofText path) = .ok false := by
    rw [contains, stopped]
    exact if_pos absence
  rw [firstMissing?_append present, firstMissing?, absent]
  rfl

theorem firstMissing?_of_refusal (stops : files.StopsAt paths path obstacle)
    (refusal : obstacle.isAbsence = false) :
    files.firstMissing? paths = .error (obstacle.failure (Path.ofText path).text) := by
  obtain ⟨before, after, rfl, present, stopped⟩ := stops
  have refused : files.contains (Path.ofText path) =
      .error (obstacle.failure (Path.ofText path).text) := by
    rw [contains, stopped]
    exact if_neg (by simp [refusal])
  rw [firstMissing?_append present, firstMissing?, refused]
  rfl

theorem StopsAt.paths_ne_nil (stops : files.StopsAt paths path obstacle) : paths ≠ [] := by
  obtain ⟨before, after, rfl, _⟩ := stops
  simp

end

/-- A name that is too long leads nowhere, whatever is in the directory. -/
theorem locate_of_long_name (files : FileSystem) {name : String} (isPart : Path.IsPart name)
    (nullFree : '\x00' ∉ name.toList) (long : nameLimit < name.utf8ByteSize)
    (started : files.entry? files.workingDirectory = some .directory)
    (searched : files.searches files.workingDirectory = true) :
    files.locate (Path.ofText name) = .error .nameTooLong := by
  have plain : (Path.mk "" [name]).IsPlain := ⟨List.mem_cons_self, by simpa using isPart⟩
  have written : (Path.mk "" [name]).text = name := by simp [Path.text]
  have read : Path.ofText name = Path.mk "" [name] := by
    have again := Path.ofText_text plain
    rwa [written] at again
  have notUp : (name == "..") = false := by
    refine beq_eq_false_iff_ne.mpr fun up => absurd long ?_
    rw [up]
    decide
  rw [read, locate, written, if_neg (by simpa using nullFree)]
  split
  · rfl
  · simp [linkLimit, resolve, walk, origin, started, searched, notUp, long]

end FileSystem

/-! ## Counting results -/

namespace Report

/-- **Every file is counted once.** -/
theorem sum_summary (report : Report) : (report.summary.map (·.2)).sum = report.files.length := by
  rw [summary, List.map_map]
  simp only [FileStatus.all, List.map_cons, List.map_nil, Function.comp, List.sum_cons,
    List.sum_nil, count]
  induction report.files with
  | nil => rfl
  | cons result results ih =>
      simp only [List.countP_cons, List.length_cons]
      cases result.status <;> simp <;> omega

/-- The exit code of a run is 2 when some file failed and 0 when none did. -/
theorem exitCode_cases (report : Report) :
    report.exitCode = 2 ∧ (∃ result ∈ report.files, result.status = .error) ∨
      report.exitCode = 0 ∧ ∀ result ∈ report.files, result.status ≠ .error := by
  have failing : report.hasErrors = true ↔ ∃ result ∈ report.files, result.status = .error := by
    simp [hasErrors, count, List.countP_pos_iff]
  cases errors : report.hasErrors with
  | true => exact .inl ⟨by simp [exitCode, errors], failing.mp errors⟩
  | false =>
      refine .inr ⟨by simp [exitCode, errors], fun result among failed => ?_⟩
      exact nomatch errors.symm.trans (failing.mpr ⟨result, among, failed⟩)

end Report

/-! ## The courses of a call -/

namespace Program

section

variable {parser : Parser} {call : Call} {arguments : Arguments} {settings : Settings}
  {path : String} {obstacle : FileSystem.Obstacle}

theorem act_of_refused {failure : SettingsFailure}
    (refused : Settings.resolve call.environment arguments = .error failure) :
    act parser call arguments =
      fail call arguments 1 "Invalid configuration" failure.message := by
  rw [act, refused]

variable (resolved : Settings.resolve call.environment arguments = .ok settings)
  (fromPaths : arguments.stdin = false)

include resolved fromPaths

theorem act_of_no_paths (none : arguments.paths = []) :
    act parser call arguments = complain call 1 "Error: no paths given (or use --stdin)." := by
  rw [act, resolved]
  simp [fromPaths, none]

theorem act_of_absence (stops : call.files.StopsAt arguments.paths path obstacle)
    (absence : obstacle.isAbsence = true) :
    act parser call arguments = complain call 1 ("Error: '" ++ path ++ "' does not exist.") := by
  rw [act, resolved]
  simp [fromPaths, stops.paths_ne_nil, FileSystem.firstMissing?_of_absence stops absence]

theorem act_of_refusal (stops : call.files.StopsAt arguments.paths path obstacle)
    (refusal : obstacle.isAbsence = false) :
    act parser call arguments =
      fail call arguments 5 "Unexpected error"
        (obstacle.failure (Path.ofText path).text).message := by
  rw [act, resolved]
  simp [fromPaths, stops.paths_ne_nil, FileSystem.firstMissing?_of_refusal stops refusal]

theorem act_of_present (given : arguments.paths ≠ [])
    (present : ∀ text ∈ arguments.paths, ∃ location, call.files.Denotes text location) :
    act parser call arguments = runBatch parser call arguments settings := by
  rw [act, resolved]
  simp [fromPaths, given, FileSystem.firstMissing?_of_present present]

end

section

variable {parser : Parser} {call : Call} {arguments : Arguments} {settings : Settings}

/-- When all paths can be walked, the files are found and the run goes through them. -/
theorem runBatch_of_walkable (walkable : ∀ text ∈ arguments.paths, call.files.Walkable text)
    (undisturbed : call.disruption = none) :
    ∃ found traced,
      (batchOf arguments settings).discover call.files arguments.paths = .ok found ∧
      (batchOf arguments settings).run parser call.files arguments.paths = .ok traced ∧
      traced.result.results.length = found.length ∧
      runBatch parser call arguments settings =
        conclude call arguments (batchOf arguments settings) traced := by
  obtain ⟨found, discovered⟩ :=
    (@Batch.exists_discover_iff (batchOf arguments settings) _ _).mpr walkable
  have ran : (batchOf arguments settings).run parser call.files arguments.paths =
      .ok ((batchOf arguments settings).processAll parser call.files found) := by
    rw [Batch.run, discovered]
    rfl
  refine ⟨found, _, discovered, ran, ?_, ?_⟩
  · have effect := Batch.effect_processAll (batchOf arguments settings) parser call.files found
    have sizes := congrArg List.length effect.named
    rwa [List.length_map] at sizes
  · unfold batchOf at ran ⊢
    simp only [runBatch, undisturbed, ran]

/-- When all paths lead somewhere but a walk is refused, the run fails before it does anything. -/
theorem runBatch_of_unwalkable
    (present : ∀ text ∈ arguments.paths, ∃ location, call.files.Denotes text location)
    (unwalkable : ∃ text ∈ arguments.paths, ¬ call.files.Walkable text)
    (undisturbed : call.disruption = none) :
    ∃ failure : AccessFailure, runBatch parser call arguments settings =
      fail call arguments 5 "Unexpected error" failure.message := by
  obtain ⟨failure, failed⟩ :=
    @Batch.exists_access_of_discover (batchOf arguments settings) _ _ present unwalkable
  have ran : (batchOf arguments settings).run parser call.files arguments.paths =
      .error (.access failure) := by
    rw [Batch.run, failed]
    rfl
  refine ⟨failure, ?_⟩
  unfold batchOf at ran
  simp only [runBatch, undisturbed, ran]

/-- The input of a call is invalid: the settings are refused, or paths are to be read and there are
none or there is nothing at the first that leads nowhere. -/
def InvalidInput (call : Call) (arguments : Arguments) : Prop :=
  (∃ failure, Settings.resolve call.environment arguments = .error failure) ∨
    arguments.stdin = false ∧
      (arguments.paths = [] ∨
        ∃ path obstacle, call.files.StopsAt arguments.paths path obstacle ∧
          obstacle.isAbsence = true)

theorem act_of_invalidInput (parser : Parser) (invalid : InvalidInput call arguments) :
    let outcome := act parser call arguments
    outcome.exitCode = 1 ∧ outcome.files = call.files ∧ outcome.output = "" := by
  intro outcome
  cases resolved : Settings.resolve call.environment arguments with
  | error failure =>
      have refused : outcome = _ := act_of_refused resolved
      rw [refused]
      exact ⟨rfl, rfl, rfl⟩
  | ok settings =>
      rcases invalid with ⟨failure, refused⟩ | ⟨fromPaths, none | ⟨path, _, stops, absence⟩⟩
      · exact nomatch resolved.symm.trans refused
      · have complains : outcome = _ := act_of_no_paths resolved fromPaths none
        rw [complains]
        exact ⟨rfl, rfl, rfl⟩
      · have complains : outcome = _ := act_of_absence resolved fromPaths stops absence
        rw [complains]
        exact ⟨rfl, rfl, rfl⟩

/-- Input that is not invalid is read, or it is a list of paths that all lead somewhere or of which
the first that does not cannot be looked up. -/
theorem invalidInput_or (call : Call) (arguments : Arguments) :
    InvalidInput call arguments ∨
      ∃ settings, Settings.resolve call.environment arguments = .ok settings ∧
        (arguments.stdin = true ∨
          arguments.stdin = false ∧
            ((∃ path obstacle, call.files.StopsAt arguments.paths path obstacle ∧
                obstacle.isAbsence = false) ∨
              arguments.paths ≠ [] ∧
                ∀ path ∈ arguments.paths, ∃ location, call.files.Denotes path location)) := by
  cases resolved : Settings.resolve call.environment arguments with
  | error failure => exact .inl (.inl ⟨failure, resolved⟩)
  | ok settings =>
      cases reads : arguments.stdin with
      | true => exact .inr ⟨settings, rfl, .inl rfl⟩
      | false =>
          by_cases none : arguments.paths = []
          · exact .inl (.inr ⟨reads, .inl none⟩)
          · rcases call.files.present_or_stopsAt arguments.paths with
              present | ⟨path, obstacle, stops⟩
            · exact .inr ⟨settings, rfl, .inr ⟨rfl, .inr ⟨none, present⟩⟩⟩
            · cases absence : obstacle.isAbsence with
              | true => exact .inl (.inr ⟨reads, .inr ⟨path, obstacle, stops, absence⟩⟩)
              | false =>
                  exact .inr ⟨settings, rfl, .inr ⟨rfl, .inl ⟨path, obstacle, stops, absence⟩⟩⟩

/-- A run ends with exit code 1 only when it is stopped from outside, and then it leaves all files
alone. -/
theorem runBatch_of_exitCode_one
    (present : ∀ text ∈ arguments.paths, ∃ location, call.files.Denotes text location)
    (one : (runBatch parser call arguments settings).exitCode = 1) :
    call.disruption ≠ none ∧ (runBatch parser call arguments settings).files = call.files ∧
      (runBatch parser call arguments settings).output = "" := by
  cases disrupted : call.disruption with
  | none =>
      by_cases walkable : ∀ text ∈ arguments.paths, call.files.Walkable text
      · obtain ⟨_, traced, _, _, _, ran⟩ :=
          @runBatch_of_walkable parser _ _ settings walkable disrupted
        rw [ran] at one
        rcases ((batchOf arguments settings).report traced.result).exitCode_cases with
          ⟨two, _⟩ | ⟨zero, _⟩
        · exact nomatch two.symm.trans one
        · exact nomatch zero.symm.trans one
      · obtain ⟨failure, failed⟩ := @runBatch_of_unwalkable parser _ _ settings present
          (by simpa using walkable) disrupted
        rw [failed] at one
        exact nomatch one
  | some disruption =>
      refine ⟨nofun, ?_⟩
      simp only [runBatch, disrupted]
      cases disruption <;> exact ⟨rfl, rfl⟩

/-- **After exit code 1 nothing has changed and nothing was put out**, and without a disruption the
input was invalid. -/
theorem act_of_exitCode_one (one : (act parser call arguments).exitCode = 1) :
    (act parser call arguments).files = call.files ∧ (act parser call arguments).output = "" ∧
      (call.disruption = none → InvalidInput call arguments) := by
  rcases invalidInput_or call arguments with invalid | ⟨settings, resolved, course⟩
  · obtain ⟨_, files, output⟩ := act_of_invalidInput parser invalid
    exact ⟨files, output, fun _ => invalid⟩
  · rcases course with fromInput | ⟨fromPaths, ⟨path, _, stops, refusal⟩ | ⟨given, present⟩⟩
    · rw [act_of_stdin resolved fromInput] at one
      exact absurd one (transformInput_outcome _ _ _ _).2.1
    · rw [act_of_refusal resolved fromPaths stops refusal] at one
      exact nomatch one
    · rw [act_of_present resolved fromPaths given present] at one ⊢
      obtain ⟨disrupted, files, output⟩ := runBatch_of_exitCode_one present one
      exact ⟨files, output, fun none => absurd none disrupted⟩

/-- What the exit code of a call with accepted arguments says of its outcome. -/
structure ExitCodeTells (parser : Parser) (call : Call) (arguments : Arguments)
    (outcome : Outcome) : Prop where
  /-- After exit code 1 all files are as before, and nothing was put out. -/
  unchanged : outcome.exitCode = 1 → outcome.files = call.files ∧ outcome.output = ""
  invalid : InvalidInput call arguments → outcome.exitCode = 1
  /-- Nothing but invalid input leads to exit code 1, unless a run is stopped from outside. -/
  onlyInvalid : call.disruption = none → outcome.exitCode = 1 → InvalidInput call arguments
  /-- One path with nothing at it makes the input invalid wherever it stands, as long as all paths
  can be looked up. -/
  absent : arguments.stdin = false →
    (∀ path ∈ arguments.paths, ∀ obstacle,
      call.files.locate (Path.ofText path) = .error obstacle → obstacle.isAbsence = true) →
    ∀ path ∈ arguments.paths, (∀ location, ¬ call.files.Denotes path location) →
      outcome.exitCode = 1
  /-- A path that cannot be looked up is not invalid input. -/
  refused : ∀ settings path obstacle,
    Settings.resolve call.environment arguments = .ok settings →
    arguments.stdin = false → call.files.StopsAt arguments.paths path obstacle →
    obstacle.isAbsence = false →
    outcome.exitCode = 5 ∧ outcome.files = call.files ∧ outcome.output = ""
  /-- Neither is a directory of which a walk meets what it cannot look up. -/
  unwalkable : ∀ settings, Settings.resolve call.environment arguments = .ok settings →
    arguments.stdin = false →
    (∀ path ∈ arguments.paths, ∃ location, call.files.Denotes path location) →
    (∃ path ∈ arguments.paths, ¬ call.files.Walkable path) → call.disruption = none →
    outcome.exitCode = 5 ∧ outcome.files = call.files ∧ outcome.output = ""
  /-- When all paths can be walked, there is a run. Its exit code says whether a file failed, and
  its counts add up to the number of files that were found. -/
  run : ∀ settings, Settings.resolve call.environment arguments = .ok settings →
    arguments.stdin = false → arguments.paths ≠ [] →
    (∀ path ∈ arguments.paths, call.files.Walkable path) → call.disruption = none →
    ∃ found traced,
      (batchOf arguments settings).discover call.files arguments.paths = .ok found ∧
      (batchOf arguments settings).run parser call.files arguments.paths = .ok traced ∧
      outcome.files = traced.result.files ∧
      (outcome.exitCode = 2 ∧ (∃ result ∈ traced.result.results, result.status = .error) ∨
        outcome.exitCode = 0 ∧ ∀ result ∈ traced.result.results, result.status ≠ .error) ∧
      (((batchOf arguments settings).report traced.result).summary.map (·.2)).sum = found.length
  /-- A call that reads the standard input leaves all files alone. It writes the transformed text
  when there is one, which exit code 0 says, and nothing otherwise. -/
  input : arguments.stdin = true →
    outcome.files = call.files ∧ (outcome.exitCode ≠ 0 → outcome.output = "") ∧
      ∀ settings, Settings.resolve call.environment arguments = .ok settings →
        (outcome.exitCode = 0 ↔
          ∃ transformed, InputBecomes parser call arguments settings.toOptions transformed) ∧
        ∀ transformed, InputBecomes parser call arguments settings.toOptions transformed →
          outcome.output = transformed.output

/-- **What the exit code of a call says.** Code 1 means that nothing was done, and unless a run is
stopped from outside it stands for invalid input alone. A run over files ends with code 2 if one of
them failed and with 0 otherwise; there is none, and the code is 5, when a path or what is below it
cannot be looked up. A call that reads the standard input writes the transformed text or nothing. -/
theorem exit_code_tells (parser : Parser) (call : Call) (arguments : Arguments)
    (accepted : Arguments.parse call.arguments call.dropsSeparator = .ok arguments) :
    ExitCodeTells parser call arguments (Program.run parser call) := by
  rw [run_of_parse accepted]
  constructor
  case unchanged =>
    intro one
    obtain ⟨files, output, _⟩ := act_of_exitCode_one one
    exact ⟨files, output⟩
  case invalid => exact fun invalid => (act_of_invalidInput parser invalid).1
  case onlyInvalid => exact fun undisturbed one => (act_of_exitCode_one one).2.2 undisturbed
  case absent =>
    intro fromPaths shown path member nowhere
    have stops := FileSystem.exists_stopsAt_absence member nowhere shown
    exact (act_of_invalidInput parser (.inr ⟨fromPaths, .inr stops⟩)).1
  case refused =>
    intro settings path obstacle resolved fromPaths stops refusal
    rw [act_of_refusal resolved fromPaths stops refusal]
    exact ⟨rfl, rfl, rfl⟩
  case unwalkable =>
    intro settings resolved fromPaths present unwalkable undisturbed
    have given : arguments.paths ≠ [] := by
      obtain ⟨path, member, _⟩ := unwalkable
      exact List.ne_nil_of_mem member
    obtain ⟨failure, failed⟩ :=
      @runBatch_of_unwalkable parser _ _ settings present unwalkable undisturbed
    rw [act_of_present resolved fromPaths given present, failed]
    exact ⟨rfl, rfl, rfl⟩
  case run =>
    intro settings resolved fromPaths given walkable undisturbed
    obtain ⟨found, traced, discovered, ran, size, outcome⟩ :=
      @runBatch_of_walkable parser _ _ settings walkable undisturbed
    have present : ∀ path ∈ arguments.paths, ∃ location, call.files.Denotes path location :=
      fun path member => (walkable path member).denotes
    rw [act_of_present resolved fromPaths given present, outcome]
    refine ⟨found, traced, discovered, ran, rfl, Report.exitCode_cases _, ?_⟩
    rw [Report.sum_summary]
    exact size
  case input =>
    intro fromInput
    cases resolved : Settings.resolve call.environment arguments with
    | error failure =>
        obtain ⟨_, files, output⟩ := act_of_invalidInput parser (.inl ⟨failure, resolved⟩)
        exact ⟨files, fun _ => output, nofun⟩
    | ok settings =>
        rw [act_of_stdin resolved fromInput]
        obtain ⟨files, _, silent, zero, written⟩ :=
          transformInput_outcome parser call arguments settings.toOptions
        refine ⟨files, silent, ?_⟩
        rintro _ ⟨⟩
        exact ⟨zero, written⟩

end

end Program

/-- An argument that does not begin with a dash is a path. -/
theorem Arguments.parse_of_plain {text : String} (plain : text.toList.head? ≠ some '-') :
    Arguments.parse [text] = .ok { paths := [text] } := by
  have noSeparator : (text == "--") = false := by
    refine beq_eq_false_iff_ne.mpr fun separator => plain ?_
    rw [separator]
    rfl
  have token : Token.ofArgument text = .ok (.plain text) := by
    rw [Token.ofArgument, if_pos (bne_iff_ne.mpr plain)]
  have tokens : Token.ofArguments [text] = .ok [.plain text] := by
    rw [Token.ofArguments, noSeparator, token]
    rfl
  rw [Arguments.parse, tokens]
  rfl

namespace Sample

/-- A call over paths of the project. -/
def projectCall (paths : List String) : Call where
  arguments := paths
  files := project

theorem parse_project : Arguments.parse ["src", "lib"] = .ok { paths := ["src", "lib"] } := by
  decide +kernel

theorem resolve_paths (paths : List String) : Settings.resolve (fun _ => none) { paths } = .ok {} :=
  rfl

theorem stopsAt_project : project.StopsAt ["src", "lib"] "lib" .missing :=
  ⟨["src"], [], rfl, by decide +kernel, by decide +kernel⟩

theorem discover_notes :
    standardBatch.discover project ["notes.md"] = .ok ["notes.md"] := by
  decide +kernel

/-- A call with one path, in a project with a directory that lets no name be looked up. -/
def closedCall (path : String) : Call where
  arguments := [path]
  files := { project with unsearchable := [["src"]] }

theorem stopsAt_closed :
    (closedCall "src/App.tsx").files.StopsAt ["src/App.tsx"] "src/App.tsx" .refused :=
  ⟨[], [], rfl, nofun, by decide +kernel⟩

theorem not_walkable_closed : ¬ (closedCall "src").files.Walkable "src" := by
  have here : (closedCall "src").files.Denotes "src" ["src"] := by decide +kernel
  rintro (⟨denotes, held⟩ | ⟨denotes, allowed⟩)
  · rw [denotes.unique here] at held
    exact nomatch held
  · rw [denotes.unique here] at allowed
    exact absurd (allowed ["App.tsx"] (by decide +kernel)) (by decide +kernel)

/-- What became of the files of a run, if there was one. -/
def statuses (ran : Except Batch.DiscoveryFailure (Traced Batch.Finished)) :
    Option (List FileStatus) :=
  ran.toOption.map fun traced => traced.result.results.map FileResult.status

/-- A name of so many octets. -/
def nameOf (size : Nat) : String :=
  String.ofList (List.replicate size 'a')

theorem eq_of_mem_nameOf {size : Nat} {c : Char} (member : c ∈ (nameOf size).toList) : c = 'a' := by
  rw [nameOf, String.toList_ofList] at member
  exact List.eq_of_mem_replicate member

theorem utf8ByteSize_nameOf (size : Nat) : (nameOf size).utf8ByteSize = size := by
  rw [nameOf, String.utf8ByteSize_ofList]
  induction size with
  | zero => rfl
  | succ size ih =>
      rw [List.replicate_succ, String.utf8Len_cons, ih]
      rfl

theorem isPart_nameOf {size : Nat} (some : 0 < size) : Path.IsPart (nameOf size) where
  nonempty empty := by
    have sizes := utf8ByteSize_nameOf size
    rw [empty] at sizes
    exact absurd sizes (Nat.ne_of_lt some)
  notDot dot := by
    have member : '.' ∈ (nameOf size).toList := by rw [dot]; decide
    exact absurd (eq_of_mem_nameOf member) (by decide)
  slashFree member := absurd (eq_of_mem_nameOf member) (by decide)

/-- A call with one path, whose name has one octet more than names can have. -/
def longCall : Call where
  arguments := [nameOf 256]

theorem locate_long : longCall.files.locate (Path.ofText (nameOf 256)) = .error .nameTooLong := by
  refine FileSystem.locate_of_long_name _ (isPart_nameOf (by decide)) ?_ ?_ rfl rfl
  · exact fun null => absurd (eq_of_mem_nameOf null) (by decide)
  · rw [utf8ByteSize_nameOf]
    decide

theorem stopsAt_long : longCall.files.StopsAt [nameOf 256] (nameOf 256) .nameTooLong :=
  ⟨[], [], rfl, nofun, locate_long⟩

theorem parse_long : Arguments.parse longCall.arguments = .ok { paths := [nameOf 256] } := by
  refine Arguments.parse_of_plain fun dash => ?_
  exact absurd (eq_of_mem_nameOf (List.mem_of_head? dash)) (by decide)

end Sample

namespace Program

/-- A path that is missing keeps the paths before it from being processed, a file that is left out
is counted and does not fail, and where no name can be looked up neither a path through the
directory nor the directory itself counts as missing. -/
theorem exit_code_tells_project :
    ((run Sample.hooksParser (Sample.projectCall ["src", "lib"])).exitCode = 1 ∧
      (run Sample.hooksParser (Sample.projectCall ["src", "lib"])).files = Sample.project ∧
      (run Sample.hooksParser (Sample.projectCall ["src", "lib"])).output = "") ∧
    (run Sample.hooksParser (Sample.projectCall ["notes.md"])).exitCode = 0 ∧
    (run Sample.hooksParser (Sample.closedCall "src/App.tsx")).exitCode = 5 ∧
    (run Sample.hooksParser (Sample.closedCall "src")).exitCode = 5 := by
  refine ⟨?_, ?_, ?_, ?_⟩
  · have tells := exit_code_tells Sample.hooksParser (Sample.projectCall ["src", "lib"]) _
      Sample.parse_project
    have one := tells.invalid (.inr ⟨rfl, .inr ⟨"lib", _, Sample.stopsAt_project, rfl⟩⟩)
    exact ⟨one, tells.unchanged one⟩
  · have tells := exit_code_tells Sample.hooksParser (Sample.projectCall ["notes.md"]) _
      (Arguments.parse_of_plain (by decide))
    obtain ⟨_, traced, _, ran, _, exitCode, _⟩ :=
      tells.run {} (Sample.resolve_paths _) rfl (List.cons_ne_nil _ _)
        (Batch.exists_discover_iff.mp ⟨_, Sample.discover_notes⟩) rfl
    have statuses : traced.result.results.map FileResult.status = [.skipped] :=
      Option.some.inj ((congrArg Sample.statuses ran).symm.trans (by decide +kernel))
    rcases exitCode with ⟨_, result, among, failed⟩ | ⟨zero, _⟩
    · have listed : FileStatus.error ∈ traced.result.results.map FileResult.status :=
        failed ▸ List.mem_map_of_mem among
      rw [statuses] at listed
      exact absurd listed (by decide)
    · exact zero
  · have tells := exit_code_tells Sample.hooksParser (Sample.closedCall "src/App.tsx") _
      (Arguments.parse_of_plain (by decide))
    exact (tells.refused {} _ _ (Sample.resolve_paths _) rfl Sample.stopsAt_closed rfl).1
  · have tells := exit_code_tells Sample.hooksParser (Sample.closedCall "src") _
      (Arguments.parse_of_plain (by decide))
    exact (tells.unwalkable {} (Sample.resolve_paths _) rfl (by decide +kernel)
      ⟨"src", List.mem_cons_self, Sample.not_walkable_closed⟩ rfl).1

/-- There is nothing at a path with a name that is too long, and yet it does not count as
missing. -/
theorem long_name_not_missing :
    Sample.longCall.arguments = [Sample.nameOf 256] ∧
      (∀ location, ¬ Sample.longCall.files.Denotes (Sample.nameOf 256) location) ∧
      (run Sample.hooksParser Sample.longCall).exitCode = 5 := by
  refine ⟨rfl, ?_, ?_⟩
  · intro location denotes
    exact nomatch denotes.symm.trans Sample.locate_long
  · have ends : act Sample.hooksParser Sample.longCall { paths := [Sample.nameOf 256] } = _ :=
      act_of_refusal (Sample.resolve_paths _) rfl Sample.stopsAt_long rfl
    rw [run_of_parse Sample.parse_long, ends]
    rfl

end Program

end Unqualify
