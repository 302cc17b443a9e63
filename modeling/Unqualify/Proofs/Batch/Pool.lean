import Mathlib.Algebra.GroupWithZero.Nat
import Mathlib.Logic.Relation
import Unqualify.Proofs.Batch.Processing

/-!
# Workers

Several workers can share the files of a run. Each file is then a job in three stages: it waits, its
unit has been transformed, its result is there. A worker takes any job that waits, and later settles
it; between the two moves the others go on, and no more jobs are under way than there are workers.
Processing the files one after the other is one of these courses (`reaches_processAll`), and every
course can be brought to an end (`exists_ended`).

Whatever the course, the jobs that ended well account for everything that changed (`Invariant`).
-/

set_option autoImplicit false

namespace Unqualify.Batch

open FileSystem

/-- How far the work on a file has come. -/
inductive Stage where
  | waiting
  | transformed (outcome : Except FileFailure Transformed)
  | done (result : FileResult)

/-- The work on a file. -/
structure Job where
  file : String
  stage : Stage

/-- The files of a run in the hands of workers, with the file system as it is by now. -/
structure Pool where
  files : FileSystem
  jobs : List Job

/-- Whether a worker is busy with a job. -/
def Job.underWay (job : Job) : Bool :=
  match job.stage with
  | .transformed _ => true
  | _ => false

namespace Pool

/-- All jobs wait. -/
def start (files : FileSystem) (paths : List String) : Pool :=
  ⟨files, paths.map fun file => ⟨file, .waiting⟩⟩

/-- The number of jobs that workers are busy with. -/
def busy (pool : Pool) : Nat :=
  pool.jobs.countP Job.underWay

/-- All jobs are done, with these results. -/
def Ended (pool : Pool) (results : List FileResult) : Prop :=
  pool.jobs.map Job.stage = results.map Stage.done

/-- A move of one of the workers. -/
inductive Step (batch : Batch) (parser : Parser) (workers : Nat) : Pool → Pool → Prop where
  /-- A worker that is free takes a job: it reads the file and transforms its unit. -/
  | take {pool : Pool} {position : Nat} {file : String}
      (waiting : pool.jobs[position]? = some ⟨file, .waiting⟩) (free : pool.busy < workers) :
      Step batch parser workers pool
        ⟨pool.files, pool.jobs.set position
          ⟨file, .transformed (pool.files.transform parser batch.options file).result⟩⟩
  /-- A worker settles the job that it has taken: it writes the file, if that is to be done. -/
  | finish {pool : Pool} {position : Nat} {file : String} {outcome : Except FileFailure Transformed}
      (taken : pool.jobs[position]? = some ⟨file, .transformed outcome⟩) :
      Step batch parser workers pool
        ⟨(batch.settle pool.files file outcome).files,
          pool.jobs.set position ⟨file, .done (batch.settle pool.files file outcome).result⟩⟩

/-- Any number of moves. -/
abbrev Reaches (batch : Batch) (parser : Parser) (workers : Nat) : Pool → Pool → Prop :=
  Relation.ReflTransGen (Step batch parser workers)

section

variable {batch : Batch} {parser : Parser} {workers : Nat} {before : FileSystem}
  {paths : List String} {pool next : Pool}

theorem getElem?_set_iff {jobs : List Job} {position other : Nat} {old new job : Job}
    (there : jobs[position]? = some old) :
    (jobs.set position new)[other]? = some job ↔
      other = position ∧ job = new ∨ other ≠ position ∧ jobs[other]? = some job := by
  by_cases here : other = position
  · subst here
    have inside : other < jobs.length := (List.getElem?_eq_some_iff.mp there).1
    simp [inside, eq_comm]
  · simp [List.getElem?_set_ne (Ne.symm here), here]

/-! ## What has changed on the way -/

/-- The job at a position is done, its file counts as changed, and its path denotes the location. -/
def EndedWell (pool : Pool) (before : FileSystem) (position : Nat) (location : Location) : Prop :=
  ∃ file result, pool.jobs[position]? = some ⟨file, .done result⟩ ∧ result.status = .ok ∧
    before.Denotes file location

/-- The location holds the outcome of the unit that the file held at first, which is another
text. -/
def HoldsOutcome (batch : Batch) (parser : Parser) (before after : FileSystem) (file : String)
    (location : Location) : Prop :=
  ∃ transformed, (before.transform parser batch.options file).result = .ok transformed ∧
    before.entry? location = some (.file (Utf8.encode transformed.source)) ∧
    after.entry? location = some (.file (Utf8.encode transformed.output)) ∧
    Utf8.encode transformed.output ≠ Utf8.encode transformed.source

/-- What holds of every pool that is reached from the start. -/
structure Invariant (batch : Batch) (parser : Parser) (before : FileSystem) (paths : List String)
    (pool : Pool) : Prop where
  named : pool.jobs.map Job.file = paths
  resultNamed : ∀ {position : Nat} {file : String} {result : FileResult},
    pool.jobs[position]? = some ⟨file, .done result⟩ → result.file = file
  sameTree : before.SameTree pool.files
  dry : batch.dryRun = true → pool.files = before
  /-- A location stays as it is until a job for it ends well. -/
  kept : ∀ {location : Location}, (∀ position, ¬ pool.EndedWell before position location) →
    pool.files.entry? location = before.entry? location
  /-- What has been read is what was there at first, unless a job for it has ended well. -/
  read : ∀ {position : Nat} {file : String} {outcome : Except FileFailure Transformed}
    {location : Location}, pool.jobs[position]? = some ⟨file, .transformed outcome⟩ →
    before.Denotes file location → (∀ other, ¬ pool.EndedWell before other location) →
    outcome = (before.transform parser batch.options file).result
  /-- A job that ended well as the only one for its location has left its outcome there. -/
  written : batch.dryRun = false → ∀ {position : Nat} {file : String} {result : FileResult}
    {location : Location}, pool.jobs[position]? = some ⟨file, .done result⟩ →
    result.status = .ok → before.Denotes file location →
    (∀ other ≠ position, ¬ pool.EndedWell before other location) →
    HoldsOutcome batch parser before pool.files file location

theorem Invariant.initial (batch : Batch) (parser : Parser) (before : FileSystem)
    (paths : List String) : Invariant batch parser before paths (.start before paths) where
  named := by simp [start, Function.comp_def]
  resultNamed done := by simp [start] at done
  sameTree := .refl before
  dry _ := rfl
  kept _ := rfl
  read taken := by simp [start] at taken
  written _ _ _ _ _ done := by simp [start] at done

theorem map_file_set {jobs : List Job} {position : Nat} {file : String} {stage : Stage}
    (there : jobs[position]? = some ⟨file, stage⟩) (new : Stage) :
    (jobs.set position ⟨file, new⟩).map Job.file = jobs.map Job.file := by
  have same : (jobs.map Job.file)[position]? = some file := by simp [there]
  obtain ⟨inside, same⟩ := List.getElem?_eq_some_iff.mp same
  rw [List.map_set]
  show (jobs.map Job.file).set position file = jobs.map Job.file
  rw [← same, List.set_getElem_self]

/-- The jobs that ended well after a move of one job: those from before, and perhaps this one. -/
theorem endedWell_set_iff {position other : Nat} {file : String} {stage : Stage}
    {location : Location} (there : pool.jobs[position]? = some ⟨file, stage⟩)
    (undone : ∀ result, stage ≠ .done result) (files : FileSystem) (new : Stage) :
    EndedWell ⟨files, pool.jobs.set position ⟨file, new⟩⟩ before other location ↔
      pool.EndedWell before other location ∨
        other = position ∧
          ∃ result, new = .done result ∧ result.status = .ok ∧ before.Denotes file location := by
  constructor
  · rintro ⟨name, result, found, ok, denotes⟩
    rcases (getElem?_set_iff there).mp found with ⟨here, same⟩ | ⟨_, found⟩
    · obtain ⟨rfl, rfl⟩ := Job.mk.inj same
      exact .inr ⟨here, result, rfl, ok, denotes⟩
    · exact .inl ⟨name, result, found, ok, denotes⟩
  · rintro (⟨name, result, found, ok, denotes⟩ | ⟨here, result, rfl, ok, denotes⟩)
    · refine ⟨name, result, (getElem?_set_iff there).mpr (.inr ⟨?_, found⟩), ok, denotes⟩
      rintro rfl
      obtain ⟨_, same⟩ := Job.mk.inj (Option.some.inj (there.symm.trans found))
      exact undone result same
    · exact ⟨file, result, (getElem?_set_iff there).mpr (.inl ⟨here, rfl⟩), ok, denotes⟩

/-- A worker that takes a job changes no file, and finds what the file held at first. -/
theorem Invariant.take (invariant : Invariant batch parser before paths pool) {position : Nat}
    {file : String} (waiting : pool.jobs[position]? = some ⟨file, .waiting⟩) :
    Invariant batch parser before paths
      ⟨pool.files, pool.jobs.set position
        ⟨file, .transformed (pool.files.transform parser batch.options file).result⟩⟩ := by
  have endedWell : ∀ other location,
      EndedWell ⟨pool.files, pool.jobs.set position
        ⟨file, .transformed (pool.files.transform parser batch.options file).result⟩⟩
        before other location ↔ pool.EndedWell before other location := by
    intro other location
    rw [endedWell_set_iff waiting (fun _ impossible => nomatch impossible)]
    refine or_iff_left ?_
    rintro ⟨_, _, impossible, _⟩
    exact nomatch impossible
  constructor
  case named => exact (map_file_set waiting _).trans invariant.named
  case resultNamed =>
    intro other name result done
    rcases (getElem?_set_iff waiting).mp done with ⟨_, impossible⟩ | ⟨_, done⟩
    · exact nomatch impossible
    · exact invariant.resultNamed done
  case sameTree => exact invariant.sameTree
  case dry => exact invariant.dry
  case kept =>
    intro location none
    exact invariant.kept fun other => (endedWell other location).not.mp (none other)
  case read =>
    intro other name outcome location taken denotes noneNow
    have none : ∀ other, ¬ pool.EndedWell before other location :=
      fun other => (endedWell other location).not.mp (noneNow other)
    rcases (getElem?_set_iff waiting).mp taken with ⟨_, same⟩ | ⟨_, taken⟩
    · obtain ⟨rfl, alike⟩ := Job.mk.inj same
      rw [Stage.transformed.inj alike, invariant.sameTree.transform_eq]
      intro place denotesToo
      rw [denotesToo.unique denotes]
      exact invariant.kept none
    · exact invariant.read taken denotes none
  case written =>
    intro wet other name result location done ok denotes alone
    rcases (getElem?_set_iff waiting).mp done with ⟨_, impossible⟩ | ⟨_, done⟩
    · exact nomatch impossible
    · exact invariant.written wet done ok denotes
        fun third away => (endedWell third location).not.mp (alone third away)

/-- A worker that settles a job changes at most the file of the job, and that only if the job ends
well. -/
theorem Invariant.finish (invariant : Invariant batch parser before paths pool) {position : Nat}
    {file : String} {outcome : Except FileFailure Transformed}
    (taken : pool.jobs[position]? = some ⟨file, .transformed outcome⟩) :
    Invariant batch parser before paths
      ⟨(batch.settle pool.files file outcome).files,
        pool.jobs.set position ⟨file, .done (batch.settle pool.files file outcome).result⟩⟩ := by
  generalize settled : batch.settle pool.files file outcome = processed
  have undone : ∀ result, Stage.transformed outcome ≠ .done result :=
    fun _ impossible => nomatch impossible
  have endedBefore : ∀ {other location},
      ¬ EndedWell ⟨processed.files, pool.jobs.set position ⟨file, .done processed.result⟩⟩
        before other location → ¬ pool.EndedWell before other location :=
    fun notNow well => notNow ((endedWell_set_iff taken undone _ _).mpr (.inl well))
  have keeps : ∀ {location},
      ¬ EndedWell ⟨processed.files, pool.jobs.set position ⟨file, .done processed.result⟩⟩
        before position location →
      processed.files.entry? location = pool.files.entry? location := by
    intro location notNow
    rw [← settled]
    apply entry?_settle
    rintro ⟨ok, denotes⟩
    rw [settled] at ok
    exact notNow ((endedWell_set_iff taken undone _ _).mpr
      (.inr ⟨rfl, _, rfl, ok, invariant.sameTree.denotes_iff.mp denotes⟩))
  constructor
  case named => exact (map_file_set taken _).trans invariant.named
  case resultNamed =>
    intro other name result done
    rcases (getElem?_set_iff taken).mp done with ⟨_, same⟩ | ⟨_, done⟩
    · obtain ⟨rfl, alike⟩ := Job.mk.inj same
      rw [Stage.done.inj alike, ← settled, file_settle]
    · exact invariant.resultNamed done
  case sameTree =>
    rw [← settled]
    exact invariant.sameTree.trans (sameTree_settle _ _ _ _)
  case dry =>
    intro dry
    rw [← settled, files_settle_of_dryRun dry, invariant.dry dry]
  case kept =>
    intro location none
    exact (keeps (none position)).trans (invariant.kept fun other => endedBefore (none other))
  case read =>
    intro other name found location takenToo denotes none
    rcases (getElem?_set_iff taken).mp takenToo with ⟨_, impossible⟩ | ⟨_, takenToo⟩
    · exact nomatch impossible
    · exact invariant.read takenToo denotes fun third => endedBefore (none third)
  case written =>
    intro wet other name result location done ok denotes alone
    rcases (getElem?_set_iff taken).mp done with ⟨rfl, same⟩ | ⟨away, done⟩
    · obtain ⟨rfl, alike⟩ := Job.mk.inj same
      have none : ∀ third, ¬ pool.EndedWell before third location := by
        intro third
        by_cases here : third = other
        · rintro ⟨_, _, done, _⟩
          rw [here, taken] at done
          exact nomatch done
        · exact endedBefore (alone third here)
      have first := invariant.read taken denotes none
      have changed : processed.result.status = .ok := Stage.done.inj alike ▸ ok
      rcases batch.settle_cases pool.files name outcome with
        ⟨place, content, writes, after, _⟩ | ⟨_, _, onlyDry⟩
      · obtain ⟨transformed, rfl, different, rfl⟩ := writes.changed
        have here : place = location :=
          (invariant.sameTree.denotes_iff.mp writes.denotes).unique denotes
        obtain ⟨origin, denotesToo, held⟩ := exists_denotes_of_transform first.symm
        rw [denotesToo.unique denotes] at held
        obtain ⟨old, heldNow⟩ := writes.held
        refine ⟨transformed, first.symm, held, ?_, Utf8.encode_injective.ne different⟩
        rw [← settled, after, here]
        exact entry?_replace_self _ _ (here ▸ heldNow)
      · rw [settled] at onlyDry
        exact nomatch wet.symm.trans (onlyDry changed)
    · obtain ⟨transformed, success, held, holds, different⟩ :=
        invariant.written wet done ok denotes fun third elsewhere =>
          endedBefore (alone third elsewhere)
      exact ⟨transformed, success, held, (keeps (alone position away.symm)).trans holds, different⟩

/-- **A move keeps the invariant.** -/
theorem Invariant.step (invariant : Invariant batch parser before paths pool)
    (step : Step batch parser workers pool next) : Invariant batch parser before paths next := by
  cases step with
  | take waiting _ => exact invariant.take waiting
  | finish taken => exact invariant.finish taken

/-- **Whatever the course, the invariant holds.** -/
theorem Invariant.reaches (invariant : Invariant batch parser before paths pool)
    (reaches : Reaches batch parser workers pool next) :
    Invariant batch parser before paths next := by
  induction reaches with
  | refl => exact invariant
  | tail _ step ih => exact ih.step step

/-! ## One file after the other -/

/-- A job with its result. -/
def doneJob (result : FileResult) : Job :=
  ⟨result.file, .done result⟩

theorem ended_map_doneJob (files : FileSystem) (results : List FileResult) :
    Ended ⟨files, results.map doneJob⟩ results := by
  simp [Ended, doneJob, Function.comp_def]

/-- A worker takes a job and settles it while nothing else goes on. -/
theorem reaches_process (enough : 0 < workers) (earlier later : List Job)
    (idle : (earlier ++ later).countP Job.underWay = 0) (files : FileSystem) (file : String) :
    Reaches batch parser workers ⟨files, earlier ++ ⟨file, .waiting⟩ :: later⟩
      ⟨(batch.process parser files file).result.files,
        earlier ++ doneJob (batch.process parser files file).result.result :: later⟩ := by
  have there : ∀ job : Job, (earlier ++ job :: later)[earlier.length]? = some job := by simp
  have moved : ∀ old new : Job,
      (earlier ++ old :: later).set earlier.length new = earlier ++ new :: later := by simp
  have none : busy ⟨files, earlier ++ ⟨file, .waiting⟩ :: later⟩ = 0 := by
    simpa [busy, Job.underWay] using idle
  have taken : Step batch parser workers ⟨files, earlier ++ ⟨file, .waiting⟩ :: later⟩
      ⟨files, (earlier ++ ⟨file, .waiting⟩ :: later).set earlier.length
        ⟨file, .transformed (files.transform parser batch.options file).result⟩⟩ :=
    .take (there _) (none ▸ enough)
  rw [moved] at taken
  have finished : Step batch parser workers ⟨files, earlier ++
        ⟨file, .transformed (files.transform parser batch.options file).result⟩ :: later⟩ _ :=
    .finish (there _)
  rw [moved, ← result_process] at finished
  refine .head taken (.single ?_)
  rw [doneJob, result_process, file_settle, ← result_process]
  exact finished

theorem reaches_processAll_after (enough : 0 < workers) (earlier : List Job)
    (idle : earlier.countP Job.underWay = 0) (files : FileSystem) (paths : List String) :
    Reaches batch parser workers ⟨files, earlier ++ (start files paths).jobs⟩
      ⟨(batch.processAll parser files paths).result.files,
        earlier ++ (batch.processAll parser files paths).result.results.map doneJob⟩ := by
  induction paths generalizing files earlier with
  | nil => exact .refl
  | cons file rest ih =>
      have idleToo : (earlier ++ (start files rest).jobs).countP Job.underWay = 0 := by
        simp [start, idle, Job.underWay]
      have first : Reaches batch parser workers _ _ :=
        reaches_process enough earlier (start files rest).jobs idleToo files file
      refine first.trans ?_
      have after := ih (earlier ++ [doneJob (batch.process parser files file).result.result])
        (by simp [idle, doneJob, Job.underWay]) (batch.process parser files file).result.files
      simpa [processAll, start] using after

/-- **Processing the files one after the other is a course of the pool.** -/
theorem reaches_processAll (enough : 0 < workers) (files : FileSystem) (paths : List String) :
    Reaches batch parser workers (.start files paths)
      ⟨(batch.processAll parser files paths).result.files,
        (batch.processAll parser files paths).result.results.map doneJob⟩ :=
  reaches_processAll_after enough [] rfl files paths

/-! ## Every course comes to an end -/

/-- The number of moves that a job still takes. -/
def movesLeft (job : Job) : Nat :=
  match job.stage with
  | .waiting => 2
  | .transformed _ => 1
  | .done _ => 0

/-- The number of moves until all jobs are done. -/
def remaining (pool : Pool) : Nat :=
  (pool.jobs.map movesLeft).sum

theorem sum_movesLeft_set {jobs : List Job} {position : Nat} {old : Job}
    (there : jobs[position]? = some old) (new : Job) :
    ((jobs.set position new).map movesLeft).sum + movesLeft old =
      (jobs.map movesLeft).sum + movesLeft new := by
  induction jobs generalizing position with
  | nil => simp at there
  | cons job rest ih =>
      cases position with
      | zero =>
          obtain rfl : job = old := by simpa using there
          simp only [List.set_cons_zero, List.map_cons, List.sum_cons]
          omega
      | succ position =>
          have others := @ih position (by simpa using there)
          simp only [List.set_cons_succ, List.map_cons, List.sum_cons]
          omega

/-- Every move brings the end nearer, so no course goes on for ever. -/
theorem Step.remaining_lt (step : Step batch parser workers pool next) :
    next.remaining < pool.remaining := by
  cases step with
  | @take position file waiting _ =>
      have sum := sum_movesLeft_set waiting
        ⟨file, .transformed (pool.files.transform parser batch.options file).result⟩
      simp only [remaining, movesLeft] at sum ⊢
      omega
  | @finish position file outcome taken =>
      have sum :=
        sum_movesLeft_set taken ⟨file, .done (batch.settle pool.files file outcome).result⟩
      simp only [remaining, movesLeft] at sum ⊢
      omega

theorem exists_results {jobs : List Job} (done : ∀ job ∈ jobs, ∃ result, job.stage = .done result) :
    ∃ results : List FileResult, jobs.map Job.stage = results.map Stage.done := by
  induction jobs with
  | nil => exact ⟨[], rfl⟩
  | cons job rest ih =>
      obtain ⟨result, first⟩ := done job (.head _)
      obtain ⟨results, others⟩ := ih fun other among => done other (.tail _ among)
      exact ⟨result :: results, by rw [List.map_cons, List.map_cons, first, others]⟩

/-- A pool is at its end, or some worker can make a move. -/
theorem ended_or_step (enough : 0 < workers) (pool : Pool) :
    (∃ results, pool.Ended results) ∨ ∃ next, Step batch parser workers pool next := by
  by_cases taken : ∃ job ∈ pool.jobs, job.underWay = true
  · obtain ⟨⟨file, stage⟩, among, underWay⟩ := taken
    obtain ⟨position, there⟩ := List.mem_iff_getElem?.mp among
    cases stage with
    | waiting => exact nomatch underWay
    | transformed outcome => exact .inr ⟨_, .finish there⟩
    | done result => exact nomatch underWay
  · by_cases waiting : ∃ job ∈ pool.jobs, job.stage = .waiting
    · obtain ⟨⟨file, stage⟩, among, rfl⟩ := waiting
      obtain ⟨position, there⟩ := List.mem_iff_getElem?.mp among
      have idle : pool.busy = 0 :=
        List.countP_eq_zero.mpr fun job among underWay => taken ⟨job, among, underWay⟩
      exact .inr ⟨_, .take there (idle ▸ enough)⟩
    · refine .inl (exists_results ?_)
      rintro ⟨file, stage⟩ among
      cases stage with
      | waiting => exact absurd ⟨_, among, rfl⟩ waiting
      | transformed outcome => exact absurd ⟨_, among, rfl⟩ taken
      | done result => exact ⟨result, rfl⟩

/-- **Every course can be brought to an end.** -/
theorem exists_ended (enough : 0 < workers) (pool : Pool) :
    ∃ last results, Reaches batch parser workers pool last ∧ last.Ended results := by
  induction size : pool.remaining using Nat.strong_induction_on generalizing pool with
  | _ _ ih =>
      rcases ended_or_step enough pool with ⟨results, ended⟩ | ⟨next, step⟩
      · exact ⟨pool, results, .refl, ended⟩
      · obtain ⟨last, results, reaches, ended⟩ := ih _ (size ▸ step.remaining_lt) next rfl
        exact ⟨last, results, .head step reaches, ended⟩

end

end Pool

end Unqualify.Batch
