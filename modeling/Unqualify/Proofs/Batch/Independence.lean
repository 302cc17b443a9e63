import Unqualify.Proofs.Batch.Effect

/-!
# Files do not depend on each other

When no two paths denote the same file, processing one of them changes nothing for the others: the
steps can change places (`files_process_comm`), so every order gives the same file system and the
same results (`processAll_perm`). A course of several workers settles the files in some order, and
what it has read before is still there then, so it ends in the same way (`Pool.Accounted`).
-/

set_option autoImplicit false

namespace Unqualify

/-- Two paths do not denote the same location. -/
def FileSystem.Different (files : FileSystem) (first second : String) : Prop :=
  ∀ location, files.Denotes first location → ¬ files.Denotes second location

namespace FileSystem

theorem Different.symm {files : FileSystem} {first second : String}
    (different : files.Different first second) : files.Different second first :=
  fun location denotes denotesToo => different location denotesToo denotes

instance {files : FileSystem} : Std.Symm files.Different :=
  ⟨fun _ _ => Different.symm⟩

theorem SameTree.different_iff {before after : FileSystem} (same : before.SameTree after)
    {first second : String} : after.Different first second ↔ before.Different first second := by
  simp only [Different, same.denotes_iff]

theorem SameTree.pairwise_different {before after : FileSystem} (same : before.SameTree after)
    {paths : List String} (different : paths.Pairwise before.Different) :
    paths.Pairwise after.Different :=
  different.imp same.different_iff.mpr

theorem different_of_ne {files : FileSystem} {paths : List String}
    (different : paths.Pairwise files.Different) {first second : Nat} {file other : String}
    (apart : first ≠ second) (there : paths[first]? = some file)
    (thereToo : paths[second]? = some other) : files.Different file other := by
  obtain ⟨inside, rfl⟩ := List.getElem?_eq_some_iff.mp there
  obtain ⟨insideToo, rfl⟩ := List.getElem?_eq_some_iff.mp thereToo
  rcases Nat.lt_or_gt_of_ne apart with before | after
  · exact List.pairwise_iff_getElem.mp different _ _ inside insideToo before
  · exact (List.pairwise_iff_getElem.mp different _ _ insideToo inside after).symm

end FileSystem

namespace Batch

open FileSystem

/-- The result of a file that is processed on its own. -/
def resultFor (batch : Batch) (parser : Parser) (files : FileSystem) (file : String) : FileResult :=
  (batch.process parser files file).result.result

section

variable {batch : Batch} {parser : Parser} {files before after : FileSystem} {file other : String}
  {paths order : List String}

/-! ## Steps on different files -/

theorem sameTree_process (batch : Batch) (parser : Parser) (files : FileSystem) (file : String) :
    files.SameTree (batch.process parser files file).result.files := by
  rw [result_process]
  exact sameTree_settle _ _ _ _

/-- A file that holds the same in two file systems with the same tree has the same result. -/
theorem resultFor_eq (same : before.SameTree after)
    (held : ∀ location, before.Denotes file location →
      after.entry? location = before.entry? location) :
    batch.resultFor parser after file = batch.resultFor parser before file := by
  rw [resultFor, resultFor, result_process, result_process, same.transform_eq held,
    result_settle_eq same]

theorem file_resultFor (batch : Batch) (parser : Parser) (files : FileSystem) (file : String) :
    (batch.resultFor parser files file).file = file := by
  rw [resultFor, result_process, file_settle]

/-- Processing a file leaves what its path does not denote. -/
theorem entry?_process {location : Location} (elsewhere : ¬ files.Denotes file location) :
    entry? (batch.process parser files file).result.files location = files.entry? location := by
  rw [result_process]
  exact entry?_settle fun ⟨_, denotes⟩ => elsewhere denotes

/-- Processing a file leaves what other paths denote. -/
theorem entry?_process_of_different (different : files.Different other file) (location : Location)
    (denotes : files.Denotes file location) :
    entry? (batch.process parser files other).result.files location = files.entry? location :=
  entry?_process fun denotesToo => different location denotesToo denotes

/-- **Settling two different files can change places.** -/
theorem files_settle_comm (different : files.Different file other)
    (outcome found : Except FileFailure Transformed) :
    (batch.settle (batch.settle files file outcome).files other found).files =
      (batch.settle (batch.settle files other found).files file outcome).files := by
  have first := files_settle_cases (batch.sameTree_settle files other found) batch file outcome
  have second := files_settle_cases (batch.sameTree_settle files file outcome) batch other found
  rcases first with ⟨kept, keptToo⟩ | ⟨location, content, denotes, changed, changedToo⟩ <;>
    rcases second with ⟨stays, staysToo⟩ | ⟨place, written, denotesToo, moved, movedToo⟩
  · rw [staysToo, keptToo, kept, stays]
  · rw [movedToo, keptToo, kept, moved]
  · rw [staysToo, changedToo, changed, stays]
  · rw [movedToo, changedToo, changed, moved]
    apply replace_comm
    rintro rfl
    exact different location denotes denotesToo

/-- **Processing two different files can change places.** -/
theorem files_process_comm (different : files.Different file other) :
    (batch.process parser (batch.process parser files file).result.files other).result.files =
      (batch.process parser (batch.process parser files other).result.files file).result.files := by
  have unread := (batch.sameTree_process parser files file).transform_eq
    (entry?_process_of_different different) parser batch.options
  have unreadToo := (batch.sameTree_process parser files other).transform_eq
    (entry?_process_of_different different.symm) parser batch.options
  rw [result_process _ _ (batch.process parser files file).result.files, unread,
    result_process _ _ (batch.process parser files other).result.files, unreadToo,
    result_process, result_process]
  exact files_settle_comm different _ _

/-! ## Any order -/

theorem processAll_cons (batch : Batch) (parser : Parser) (files : FileSystem) (file : String)
    (rest : List String) :
    (batch.processAll parser files (file :: rest)).result =
      ⟨(batch.processAll parser (batch.process parser files file).result.files rest).result.files,
        batch.resultFor parser files file ::
          (batch.processAll parser (batch.process parser files file).result.files
            rest).result.results⟩ :=
  rfl

theorem files_processAll_perm (perm : order.Perm paths)
    (different : order.Pairwise files.Different) :
    (batch.processAll parser files order).result.files =
      (batch.processAll parser files paths).result.files := by
  induction perm generalizing files with
  | nil => rfl
  | cons file perm ih =>
      rw [processAll_cons, processAll_cons]
      exact ih ((sameTree_process _ _ _ _).pairwise_different different.of_cons)
  | swap first second rest =>
      rw [processAll_cons, processAll_cons, processAll_cons, processAll_cons]
      rw [files_process_comm (List.rel_of_pairwise_cons different (.head _))]
  | trans perm _ ih ihToo =>
      have differentToo := (perm.pairwise_iff fun {_ _} => Different.symm).mp different
      exact (ih different).trans (ihToo differentToo)

theorem results_processAll (different : paths.Pairwise files.Different) :
    (batch.processAll parser files paths).result.results =
      paths.map (batch.resultFor parser files) := by
  induction paths generalizing files with
  | nil => rfl
  | cons file rest ih =>
      have same := batch.sameTree_process parser files file
      rw [processAll_cons, ih (same.pairwise_different different.of_cons), List.map_cons]
      refine congrArg _ (List.map_congr_left fun other among => ?_)
      have apart := List.rel_of_pairwise_cons different among
      exact resultFor_eq same (entry?_process_of_different apart)

/-- **The order in which different files are processed makes no difference.** -/
theorem processAll_perm (perm : order.Perm paths) (different : paths.Pairwise files.Different) :
    (batch.processAll parser files order).result =
      ⟨(batch.processAll parser files paths).result.files,
        order.map (batch.resultFor parser files)⟩ := by
  have differentToo := (perm.pairwise_iff fun {_ _} => Different.symm).mpr different
  rw [← files_processAll_perm perm differentToo, ← results_processAll differentToo]

/-! ## Any course of the workers -/

theorem files_processAll_concat (batch : Batch) (parser : Parser) (files : FileSystem)
    (order : List String) (file : String) :
    (batch.processAll parser files (order ++ [file])).result.files =
      (batch.process parser (batch.processAll parser files order).result.files
        file).result.files := by
  induction order generalizing files with
  | nil => rfl
  | cons first rest ih => exact ih _

/-- Processing files leaves what other paths denote. -/
theorem entry?_processAll (different : ∀ other ∈ order, files.Different other file)
    {location : Location} (denotes : files.Denotes file location) :
    entry? (batch.processAll parser files order).result.files location = files.entry? location := by
  have effect := effect_processAll batch parser files order
  apply effect.kept
  intro result among _ denotesToo
  have processed : result.file ∈ order := effect.named ▸ List.mem_map_of_mem among
  exact different _ processed location denotesToo denotes

namespace Pool

/-- The file of a job that is done. -/
def doneFile? (job : Job) : Option String :=
  match job.stage with
  | .done _ => some job.file
  | _ => none

/-- The files of the jobs that are done. -/
def doneFiles (pool : Pool) : List String :=
  pool.jobs.filterMap doneFile?

theorem filterMap_doneFile?_set {jobs : List Job} {position : Nat} {job : Job}
    (there : jobs[position]? = some job) (undone : doneFile? job = none) (new : Job) :
    ((jobs.set position new).filterMap doneFile?).Perm
      ((doneFile? new).toList ++ jobs.filterMap doneFile?) := by
  induction jobs generalizing position with
  | nil => simp at there
  | cons first rest ih =>
      cases position with
      | zero =>
          obtain rfl : first = job := by simpa using there
          rw [List.set_cons_zero, List.filterMap_cons_none undone]
          cases made : doneFile? new with
          | none => rw [List.filterMap_cons_none made]; exact .refl _
          | some file => rw [List.filterMap_cons_some made]; exact .refl _
      | succ position =>
          have others := @ih position (by simpa using there)
          rw [List.set_cons_succ]
          cases made : doneFile? first with
          | none => rwa [List.filterMap_cons_none made, List.filterMap_cons_none made]
          | some file =>
              rw [List.filterMap_cons_some made, List.filterMap_cons_some made]
              exact (others.cons file).trans List.perm_middle.symm

/-- What holds of every pool over different files: all that has been read or done is as if each file
had been processed on its own, and the file system is what the jobs that are done left behind in the
order in which they were settled. -/
structure Accounted (batch : Batch) (parser : Parser) (before : FileSystem)
    (pool : Pool) : Prop where
  different : (pool.jobs.map Job.file).Pairwise before.Different
  outcome : ∀ {position : Nat} {file : String} {outcome : Except FileFailure Transformed},
    pool.jobs[position]? = some ⟨file, .transformed outcome⟩ →
    outcome = (before.transform parser batch.options file).result
  result : ∀ {position : Nat} {file : String} {result : FileResult},
    pool.jobs[position]? = some ⟨file, .done result⟩ → result = batch.resultFor parser before file
  order : ∃ order : List String, order.Perm pool.doneFiles ∧
    pool.files = (batch.processAll parser before order).result.files

variable {workers : Nat} {pool next : Pool} {position : Nat}

theorem Accounted.initial (batch : Batch) (parser : Parser)
    (different : paths.Pairwise before.Different) :
    Accounted batch parser before (.start before paths) where
  different := by simpa [start, Function.comp_def] using different
  outcome taken := by simp [start] at taken
  result done := by simp [start] at done
  order := ⟨[], by simp [doneFiles, start, doneFile?, Function.comp_def], rfl⟩

/-- The file of a job that is not done is in the state in which it was at first. -/
theorem Accounted.untouched (accounted : Accounted batch parser before pool) {stage : Stage}
    (there : pool.jobs[position]? = some ⟨file, stage⟩) (undone : ∀ result, stage ≠ .done result) :
    before.SameTree pool.files ∧
      ∀ location, before.Denotes file location →
        pool.files.entry? location = before.entry? location := by
  obtain ⟨order, perm, files⟩ := accounted.order
  rw [files]
  refine ⟨(effect_processAll batch parser before order).sameTree, fun location => ?_⟩
  apply entry?_processAll
  intro other settled
  obtain ⟨⟨name, reached⟩, among, made⟩ := List.mem_filterMap.mp (perm.mem_iff.mp settled)
  obtain ⟨place, found⟩ := List.mem_iff_getElem?.mp among
  cases reached with
  | waiting => exact nomatch made
  | transformed outcome => exact nomatch made
  | done result =>
      obtain rfl : name = other := Option.some.inj made
      refine different_of_ne accounted.different ?_ (by rw [List.getElem?_map, found]; rfl)
        (by rw [List.getElem?_map, there]; rfl)
      rintro rfl
      exact undone result (Job.mk.inj (Option.some.inj (there.symm.trans found))).2

theorem Accounted.take (accounted : Accounted batch parser before pool)
    (waiting : pool.jobs[position]? = some ⟨file, .waiting⟩) :
    Accounted batch parser before
      ⟨pool.files, pool.jobs.set position
        ⟨file, .transformed (pool.files.transform parser batch.options file).result⟩⟩ := by
  obtain ⟨same, held⟩ := accounted.untouched waiting fun _ impossible => nomatch impossible
  constructor
  case different => exact (map_file_set waiting _).symm ▸ accounted.different
  case outcome =>
    intro place name outcome taken
    rcases (getElem?_set_iff waiting).mp taken with ⟨_, new⟩ | ⟨_, taken⟩
    · obtain ⟨rfl, alike⟩ := Job.mk.inj new
      rw [Stage.transformed.inj alike, same.transform_eq held]
    · exact accounted.outcome taken
  case result =>
    intro place name result done
    rcases (getElem?_set_iff waiting).mp done with ⟨_, impossible⟩ | ⟨_, done⟩
    · exact nomatch impossible
    · exact accounted.result done
  case order =>
    obtain ⟨order, perm, files⟩ := accounted.order
    have moved := filterMap_doneFile?_set waiting rfl
      ⟨file, .transformed (pool.files.transform parser batch.options file).result⟩
    exact ⟨order, perm.trans moved.symm, files⟩

theorem Accounted.finish (accounted : Accounted batch parser before pool)
    {outcome : Except FileFailure Transformed}
    (taken : pool.jobs[position]? = some ⟨file, .transformed outcome⟩) :
    Accounted batch parser before
      ⟨(batch.settle pool.files file outcome).files,
        pool.jobs.set position ⟨file, .done (batch.settle pool.files file outcome).result⟩⟩ := by
  obtain ⟨same, held⟩ := accounted.untouched taken fun _ impossible => nomatch impossible
  -- What was read when the job was taken would be read now as well, so the two moves count as one.
  have processed : batch.settle pool.files file outcome =
      (batch.process parser pool.files file).result := by
    rw [result_process, same.transform_eq held, accounted.outcome taken]
  rw [processed]
  constructor
  case different => exact (map_file_set taken _).symm ▸ accounted.different
  case outcome =>
    intro place name found takenToo
    rcases (getElem?_set_iff taken).mp takenToo with ⟨_, impossible⟩ | ⟨_, takenToo⟩
    · exact nomatch impossible
    · exact accounted.outcome takenToo
  case result =>
    intro place name result done
    rcases (getElem?_set_iff taken).mp done with ⟨_, new⟩ | ⟨_, done⟩
    · obtain ⟨rfl, alike⟩ := Job.mk.inj new
      exact (Stage.done.inj alike).trans (resultFor_eq same held)
    · exact accounted.result done
  case order =>
    obtain ⟨order, perm, files⟩ := accounted.order
    have moved := filterMap_doneFile?_set taken rfl
      ⟨file, .done (batch.process parser pool.files file).result.result⟩
    refine ⟨order ++ [file], ?_, ?_⟩
    · exact (List.perm_append_singleton file order).trans ((perm.cons file).trans moved.symm)
    · rw [files_processAll_concat, files]

theorem Accounted.reaches (accounted : Accounted batch parser before pool)
    (reaches : Reaches batch parser workers pool next) : Accounted batch parser before next := by
  induction reaches with
  | refl => exact accounted
  | tail _ step ih =>
      cases step with
      | take waiting _ => exact ih.take waiting
      | finish taken => exact ih.finish taken

/-- **Every course of the workers over different files ends as if these had been processed one after
the other.** -/
theorem finished_eq_processAll (different : paths.Pairwise before.Different)
    (reaches : Reaches batch parser workers (.start before paths) pool) {results : List FileResult}
    (ended : pool.Ended results) :
    (⟨pool.files, results⟩ : Finished) = (batch.processAll parser before paths).result := by
  have invariant := (Invariant.initial batch parser before paths).reaches reaches
  have accounted := (Accounted.initial batch parser different).reaches reaches
  have jobs := invariant.jobs_eq ended
  have named : results.map FileResult.file = paths := (invariant.effect ended).named
  have own : results = paths.map (batch.resultFor parser before) := by
    rw [← named, List.map_map]
    conv_lhs => rw [← List.map_id results]
    refine List.map_congr_left fun result among => ?_
    obtain ⟨position, there⟩ := List.mem_iff_getElem?.mp among
    have done : pool.jobs[position]? = some (doneJob result) := by
      rw [jobs, List.getElem?_map, there]
      rfl
    exact accounted.result done
  have done : pool.doneFiles = paths := by
    rw [doneFiles, jobs, List.filterMap_map, ← named]
    exact congrFun List.filterMap_eq_map results
  obtain ⟨order, perm, files⟩ := accounted.order
  rw [done] at perm
  have differentToo := (perm.pairwise_iff fun {_ _} => Different.symm).mpr different
  rw [files, own, files_processAll_perm perm differentToo]
  exact (processAll_perm (.refl paths) different).symm

end Pool

/-! ## Another content of one file -/

/-- Two file systems with the same tree hold the same everywhere but at one location. -/
structure AgreeBut (location : Location) (before after : FileSystem) : Prop where
  sameTree : before.SameTree after
  held : ∀ place ≠ location, after.entry? place = before.entry? place

variable {location : Location}

theorem agreeBut_replace (files : FileSystem) (location : Location) (content : Bytes) :
    AgreeBut location files (files.replace location content) :=
  ⟨files.sameTree_replace location content, fun _ => entry?_replace_of_ne location content⟩

/-- Paths to other locations find what they found. -/
theorem AgreeBut.held_of_not_denotes (agree : AgreeBut location before after)
    (elsewhere : ¬ before.Denotes file location) (place : Location)
    (denotes : before.Denotes file place) : after.entry? place = before.entry? place := by
  apply agree.held
  rintro rfl
  exact elsewhere denotes

theorem AgreeBut.process (agree : AgreeBut location before after) (batch : Batch) (parser : Parser)
    (file : String) :
    AgreeBut location (batch.process parser before file).result.files
      (batch.process parser after file).result.files := by
  have same := agree.sameTree
  refine ⟨(batch.sameTree_process parser before file).symm.trans
    (same.trans (batch.sameTree_process parser after file)), fun place away => ?_⟩
  by_cases here : before.Denotes file location
  · have elsewhere : ¬ before.Denotes file place := fun denotes => away (denotes.unique here)
    have elsewhereToo : ¬ after.Denotes file place := same.denotes_iff.not.mpr elsewhere
    rw [entry?_process elsewhere, entry?_process elsewhereToo]
    exact agree.held place away
  · rw [result_process, result_process, same.transform_eq (agree.held_of_not_denotes here)]
    rcases files_settle_cases same batch file
      (before.transform parser batch.options file).result with
      ⟨kept, keptToo⟩ | ⟨changed, content, _, moved, movedToo⟩
    · rw [kept, keptToo]
      exact agree.held place away
    · rw [moved, movedToo, entry?_replace _ _ (agree.held place away), entry?_replace _ _ rfl]

theorem AgreeBut.processAll (agree : AgreeBut location before after) (batch : Batch)
    (parser : Parser) (paths : List String) :
    AgreeBut location (batch.processAll parser before paths).result.files
      (batch.processAll parser after paths).result.files := by
  induction paths generalizing before after with
  | nil => exact agree
  | cons file rest ih => exact ih (agree.process batch parser file)

end

/-- **The files of a run do not depend on each other.** Let no two of the paths denote the same
location. Every order of processing them leaves the same file system and gives each path the result
that it has on its own. Every course of any number of workers can be brought to an end, and then it
has the outcome of the run. And whatever one of the files is made to hold, the results and the files
of the others stay as they were; if the file then fails, it keeps what it was made to hold. -/
theorem units_independent (batch : Batch) (parser : Parser) (files : FileSystem)
    (paths : List String) (different : paths.Pairwise files.Different) :
    (∀ order : List String, order.Perm paths →
      (batch.processAll parser files order).result =
        ⟨(batch.processAll parser files paths).result.files,
          order.map (batch.resultFor parser files)⟩) ∧
    (∀ workers pool, Pool.Reaches batch parser workers (.start files paths) pool →
      (∀ results, pool.Ended results → ∀ given, batch.discover files given = .ok paths →
        ∃ traced, batch.run parser files given = .ok traced ∧
          traced.result = ⟨pool.files, results⟩) ∧
      (0 < workers → ∃ last results, Pool.Reaches batch parser workers pool last ∧
        last.Ended results)) ∧
    ∀ path ∈ paths, ∀ location old content, files.Denotes path location →
      files.entry? location = some (.file old) →
      let replaced := files.replace location content
      let outcome := (batch.processAll parser replaced paths).result
      outcome.results = paths.map (batch.resultFor parser replaced) ∧
        (∀ other ∈ paths, other ≠ path →
          batch.resultFor parser replaced other = batch.resultFor parser files other) ∧
        (∀ place ≠ location, outcome.files.entry? place =
          entry? (batch.processAll parser files paths).result.files place) ∧
        ((batch.resultFor parser replaced path).status = .error →
          outcome.files.entry? location = some (.file content)) := by
  refine ⟨fun order perm => processAll_perm perm different, ?_, ?_⟩
  · intro workers pool reaches
    refine ⟨?_, fun enough => Pool.exists_ended enough pool⟩
    intro results ended given discovered
    refine ⟨batch.processAll parser files paths, by rw [run, discovered]; rfl, ?_⟩
    exact (Pool.finished_eq_processAll different reaches ended).symm
  · intro path among location old content denotes held replaced outcome
    have agree := agreeBut_replace files location content
    have differentToo := agree.sameTree.pairwise_different different
    have results : outcome.results = paths.map (batch.resultFor parser replaced) :=
      results_processAll differentToo
    have alone : ∀ other ∈ paths, other ≠ path → ¬ files.Denotes other location := by
      intro other amongToo apart denotesToo
      exact different.forall amongToo among apart location denotesToo denotes
    refine ⟨results, ?_, (agree.processAll batch parser paths).held, ?_⟩
    · intro other amongToo apart
      exact resultFor_eq agree.sameTree (agree.held_of_not_denotes (alone other amongToo apart))
    · intro failed
      refine ((effect_processAll batch parser replaced paths).kept location ?_).trans
        (entry?_replace_self location content held)
      intro result found ok denotesToo
      obtain ⟨other, amongToo, rfl⟩ := List.mem_map.mp (results ▸ found)
      rw [file_resultFor, agree.sameTree.denotes_iff] at denotesToo
      by_cases same : other = path
      · rw [same, failed] at ok
        cases ok
      · exact alone other amongToo same denotesToo

end Batch

namespace Sample

theorem different_project :
    ["src/App.tsx", "notes.md"].Pairwise project.Different := by
  have notes : project.Denotes "notes.md" ["notes.md"] := by
    decide +kernel
  rw [List.pairwise_pair]
  intro location denotes denotesToo
  have same := (denotes_project.unique denotes).trans (denotesToo.unique notes)
  exact absurd same (by decide)

end Sample

theorem Batch.units_independent_project :
    ["src/App.tsx", "notes.md"].Pairwise Sample.project.Different ∧
      (Sample.standardBatch.processAll Sample.hooksParser Sample.project
          ["notes.md", "src/App.tsx"]).result =
        ⟨(Sample.standardBatch.processAll Sample.hooksParser Sample.project
            ["src/App.tsx", "notes.md"]).result.files,
          ["notes.md", "src/App.tsx"].map
            (Sample.standardBatch.resultFor Sample.hooksParser Sample.project)⟩ ∧
      Sample.standardBatch.resultFor Sample.hooksParser
          (Sample.project.replace ["src", "App.tsx"] [0xFF]) "notes.md" =
        Sample.standardBatch.resultFor Sample.hooksParser Sample.project "notes.md" := by
  obtain ⟨anyOrder, _, anyContent⟩ := units_independent Sample.standardBatch Sample.hooksParser
    Sample.project ["src/App.tsx", "notes.md"] Sample.different_project
  refine ⟨Sample.different_project, anyOrder _ (.swap _ _ _), ?_⟩
  obtain ⟨_, others, _⟩ := anyContent "src/App.tsx" (.head _) ["src", "App.tsx"] _ [0xFF]
    Sample.denotes_project rfl
  exact others "notes.md" (by decide) (by decide)

end Unqualify
