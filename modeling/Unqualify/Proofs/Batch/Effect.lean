import Unqualify.Program
import Unqualify.Proofs.Batch.Pool
import Unqualify.Proofs.Frame

/-!
# What a run does to the file system

A run that cannot find its files touches nothing. Any other run has one result for each file, in the
order in which they were found, whatever becomes of them. A file changes only if one of its paths
ends well; if only one does, the file holds the outcome of its unit afterwards, and that is another
text than before (`run_effect`). All of this holds for every number of workers and every course that
they take.
-/

set_option autoImplicit false

namespace Unqualify

/-- The run that a call of the program asks for. -/
def Program.batchOf (arguments : Arguments) (settings : Settings) : Batch :=
  .make settings.toOptions settings.extensions settings.excluded arguments.dryRun
    arguments.printOutput arguments.diff

namespace Batch

open FileSystem

/-- What a run over the files at `paths` leaves behind. -/
structure Effect (batch : Batch) (parser : Parser) (before : FileSystem) (paths : List String)
    (finished : Finished) : Prop where
  /-- Each path has one result, and the results are in the order of the paths. -/
  named : finished.results.map FileResult.file = paths
  /-- Nothing but what files hold can change. -/
  sameTree : before.SameTree finished.files
  /-- What no path that ended well denotes is as before. -/
  kept : ∀ location,
    (∀ result ∈ finished.results, result.status = .ok → ¬ before.Denotes result.file location) →
    finished.files.entry? location = before.entry? location
  /-- If nothing is to be written, nothing changes at all. -/
  dry : batch.dryRun = true → finished.files = before
  /-- A file that exactly one path that ended well denotes holds the outcome of its unit, which is
  not what it held before. -/
  written : batch.dryRun = false → ∀ position result location,
    finished.results[position]? = some result → result.status = .ok →
    before.Denotes result.file location →
    (∀ other ∈ finished.results.eraseIdx position, other.status = .ok →
      ¬ before.Denotes other.file location) →
    Pool.HoldsOutcome batch parser before finished.files result.file location

section

variable {batch : Batch} {parser : Parser} {workers : Nat} {before : FileSystem}
  {paths : List String} {pool : Pool} {results : List FileResult}

theorem Pool.Invariant.jobs_eq (invariant : Invariant batch parser before paths pool)
    (ended : pool.Ended results) : pool.jobs = results.map doneJob := by
  apply List.ext_getElem?
  intro position
  have stages := congrArg (·[position]?) ended
  simp only [List.getElem?_map] at stages ⊢
  cases there : pool.jobs[position]? with
  | none =>
      rw [there] at stages
      rw [Option.map_eq_none_iff.mp stages.symm]
      rfl
  | some job =>
      rw [there] at stages
      obtain ⟨result, found, done⟩ := Option.map_eq_some_iff.mp stages.symm
      obtain ⟨file, stage⟩ := job
      obtain rfl : Stage.done result = stage := done
      rw [found, ← invariant.resultNamed there]
      rfl

/-- **Every course of the workers has the effect of a run.** -/
theorem Pool.Invariant.effect (invariant : Invariant batch parser before paths pool)
    (ended : pool.Ended results) : Effect batch parser before paths ⟨pool.files, results⟩ := by
  have jobs := invariant.jobs_eq ended
  have endedWell : ∀ {position : Nat} {location : Location},
      pool.EndedWell before position location ↔
        ∃ result, results[position]? = some result ∧ result.status = .ok ∧
          before.Denotes result.file location := by
    intro position location
    simp only [EndedWell, jobs, List.getElem?_map, Option.map_eq_some_iff, doneJob, Job.mk.injEq,
      Stage.done.injEq]
    constructor
    · rintro ⟨file, result, ⟨found, there, rfl, rfl⟩, ok, denotes⟩
      exact ⟨found, there, ok, denotes⟩
    · rintro ⟨result, there, ok, denotes⟩
      exact ⟨result.file, result, ⟨result, there, rfl, rfl⟩, ok, denotes⟩
  constructor
  case named =>
    rw [← invariant.named, jobs, List.map_map]
    rfl
  case sameTree => exact invariant.sameTree
  case kept =>
    intro location none
    apply invariant.kept
    intro position well
    obtain ⟨result, there, ok, denotes⟩ := endedWell.mp well
    exact none result (List.mem_of_getElem? there) ok denotes
  case dry => exact invariant.dry
  case written =>
    intro wet position result location there ok denotes alone
    have done : pool.jobs[position]? = some ⟨result.file, .done result⟩ := by
      rw [jobs, List.getElem?_map, there]
      rfl
    apply invariant.written wet done ok denotes
    intro other away well
    obtain ⟨found, thereToo, okToo, denotesToo⟩ := endedWell.mp well
    exact alone found (List.mem_eraseIdx_iff_getElem?.mpr ⟨other, away, thereToo⟩) okToo denotesToo

theorem effect_processAll (batch : Batch) (parser : Parser) (before : FileSystem)
    (paths : List String) :
    Effect batch parser before paths (batch.processAll parser before paths).result :=
  ((Pool.Invariant.initial batch parser before paths).reaches
    (Pool.reaches_processAll Nat.one_pos before paths)).effect (Pool.ended_map_doneJob _ _)

end

theorem files_runBatch_of_error {parser : Parser} {call : Call} {arguments : Arguments}
    {settings : Settings} {failure : DiscoveryFailure}
    (fails : (Program.batchOf arguments settings).run parser call.files arguments.paths =
      .error failure) :
    (Program.runBatch parser call arguments settings).files = call.files := by
  unfold Program.batchOf at fails
  unfold Program.runBatch
  dsimp only
  rw [fails]
  cases call.disruption with
  | none => cases failure <;> rfl
  | some disruption => cases disruption <;> rfl

/-- **What a run does to the file system.** If its files cannot be found, nothing is processed, and
the program leaves the file system as it is. Otherwise the run has its effect, one file after the
other as well as with any number of workers. -/
theorem run_effect (batch : Batch) (parser : Parser) (files : FileSystem) (paths : List String) :
    (∀ failure, batch.discover files paths = .error failure →
      batch.run parser files paths = .error failure ∧
        ∀ call arguments settings, call.files = files → arguments.paths = paths →
          Program.batchOf arguments settings = batch →
          (Program.runBatch parser call arguments settings).files = files) ∧
    ∀ found, batch.discover files paths = .ok found →
      (∃ traced, batch.run parser files paths = .ok traced ∧
        Effect batch parser files found traced.result) ∧
      ∀ workers pool results,
        Pool.Reaches batch parser workers (.start files found) pool → pool.Ended results →
        Effect batch parser files found ⟨pool.files, results⟩ := by
  constructor
  · intro failure failed
    have fails : batch.run parser files paths = .error failure := by
      rw [run, failed]
      rfl
    refine ⟨fails, ?_⟩
    rintro call arguments settings rfl rfl rfl
    exact files_runBatch_of_error fails
  · intro found success
    refine ⟨⟨batch.processAll parser files found, ?_, effect_processAll batch parser files found⟩,
      ?_⟩
    · rw [run, success]
      rfl
    · intro workers pool results reaches ended
      exact ((Pool.Invariant.initial batch parser files found).reaches reaches).effect ended

end Batch

namespace Sample

/-- A project with one unit, a link to it, a text without a language, and a unit that is left
out. -/
def project : FileSystem where
  entries := [(["notes.md"], .file []), (["src"], .directory),
    (["src", "App.tsx"], .file (Utf8.encode hooksText)), (["src", "Link.tsx"], .link "App.tsx"),
    (["src", "dist"], .directory), (["src", "dist", "App.tsx"], .file (Utf8.encode hooksText))]

/-- A run with the standard settings. -/
def standardBatch : Batch :=
  .make {} [] [] false false false

theorem unit_project :
    project.unit "src/App.tsx" none = .ok ⟨"src/App.tsx", .tsx, hooksText⟩ := by
  decide +kernel

theorem transform_project :
    (project.transform hooksParser {} "src/App.tsx").result =
      .ok ⟨hooksText, hooksOutput, ⟨["useState"], []⟩, 1, 1⟩ := by
  have success : SourceUnit.transform ⟨"src/App.tsx", .tsx, hooksText⟩ hooksParser {} =
      .ok ⟨hooksText, hooksOutput, ⟨["useState"], []⟩, 1, 1⟩ := by
    refine SourceUnit.transform_eq_ok_iff.mpr ⟨rfl, hooksPlan, plan_hooks, .inr ⟨?_, hooksOutput,
      applyAll_hooks, rfl, ?_⟩⟩
    · exact editsFor_hooks ▸ List.cons_ne_nil _ _
    · decide +kernel
  rw [FileSystem.result_transform unit_project, success]
  rfl

theorem denotes_project : project.Denotes "src/App.tsx" ["src", "App.tsx"] := by
  decide +kernel

/-- The unit of the project is transformed and written. -/
theorem process_project :
    (standardBatch.process hooksParser project "src/App.tsx").result =
      ⟨project.replace ["src", "App.tsx"] (Utf8.encode hooksOutput),
        standardBatch.resultOf "src/App.tsx"
          ⟨hooksText, hooksOutput, ⟨["useState"], []⟩, 1, 1⟩⟩ := by
  have settled : Batch.settle standardBatch project "src/App.tsx"
      (project.transform hooksParser standardBatch.options "src/App.tsx").result =
        Batch.settle standardBatch project "src/App.tsx" (.ok _) := congrArg _ transform_project
  rw [Batch.result_process, settled]
  apply Batch.settle_of_write_eq_ok (by decide +kernel) rfl
  exact FileSystem.write_eq_ok_iff.mpr
    ⟨by decide +kernel, ["src", "App.tsx"], _, denotes_project, rfl, rfl⟩

end Sample

namespace Batch

theorem run_effect_project :
    Sample.standardBatch.discover Sample.project ["src"] = .ok ["src/App.tsx"] ∧
      (∃ traced, Sample.standardBatch.run Sample.hooksParser Sample.project ["src"] = .ok traced ∧
        traced.result.files.entry? ["src", "App.tsx"] =
          some (.file (Utf8.encode Sample.hooksOutput)) ∧
        traced.result.files.entry? ["src", "dist", "App.tsx"] =
          some (.file (Utf8.encode Sample.hooksText))) ∧
      Sample.standardBatch.run Sample.hooksParser Sample.project ["src", "lib"] =
        .error (.notFound "lib") := by
  have discovered : Sample.standardBatch.discover Sample.project ["src"] = .ok ["src/App.tsx"] := by
    decide +kernel
  have failed : Sample.standardBatch.discover Sample.project ["src", "lib"] =
      .error (.notFound "lib") := by
    decide +kernel
  refine ⟨discovered, ?_, ((run_effect _ _ _ _).1 _ failed).1⟩
  obtain ⟨⟨traced, ran, effect⟩, _⟩ :=
    (run_effect Sample.standardBatch Sample.hooksParser Sample.project ["src"]).2 _ discovered
  have results : traced.result.results = [Sample.standardBatch.resultOf "src/App.tsx"
      ⟨Sample.hooksText, Sample.hooksOutput, ⟨["useState"], []⟩, 1, 1⟩] := by
    have same := ran
    rw [run, discovered] at same
    rw [← Except.ok.inj same]
    exact congrArg (fun processed : Processed => [processed.result]) Sample.process_project
  refine ⟨traced, ran, ?_, ?_⟩
  · obtain ⟨transformed, success, _, holds, _⟩ := effect.written rfl 0 _ _ (by rw [results]; rfl)
      (status_resultOf.mpr (by decide +kernel)) Sample.denotes_project (by rw [results]; nofun)
    rw [holds, ← Except.ok.inj (Sample.transform_project.symm.trans success)]
  · refine (effect.kept _ ?_).trans rfl
    intro result among _ denotes
    rw [results, List.mem_singleton] at among
    subst among
    exact absurd (denotes.unique Sample.denotes_project) (by decide)

end Batch

end Unqualify
