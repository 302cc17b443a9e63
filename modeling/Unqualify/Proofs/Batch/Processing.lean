import Unqualify.Batch
import Unqualify.Proofs.FileSystem
import Unqualify.Proofs.SourceUnit

/-!
# Processing one file

A file is processed in two moves: its unit is read and transformed (`FileSystem.transform`), and
what comes of it is settled (`Batch.settle`). The first move depends on the tree of the file system
and on what the file itself holds (`SameTree.transform_eq`). The second one writes at most this
file, and it does so exactly when a changed text can be written (`settle_cases`).
-/

set_option autoImplicit false

namespace Unqualify

theorem SourceUnit.result_transformTraced (unit : SourceUnit) (parser : Parser)
    (options : Options) :
    (unit.transformTraced parser options).result = unit.transform parser options := by
  unfold transformTraced transform
  cases unit.survey parser options <;> rfl

theorem SourceUnit.source_of_transform {unit : SourceUnit} {parser : Parser} {options : Options}
    {transformed : Transformed} (success : unit.transform parser options = .ok transformed) :
    transformed.source = unit.text := by
  obtain ⟨_, _, _, ⟨_, rfl⟩ | ⟨_, _, _, _, rfl⟩⟩ := transform_eq_ok_iff.mp success <;> rfl

namespace FileSystem

/-! ## Transforming what a file holds -/

section

variable {before after : FileSystem} {file : String}

theorem SameTree.read_eq (same : before.SameTree after) {path : Path}
    (held : ∀ location, before.locate path = .ok location →
      after.entry? location = before.entry? location) :
    after.read path = before.read path := by
  rw [read, read, same.unreadable, same.locate_eq]
  cases located : before.locate path with
  | error obstacle => rfl
  | ok location => simp only [held location located]

/-- **The transform of a file depends on the tree and on what the file holds.** -/
theorem SameTree.transform_eq (same : before.SameTree after)
    (held : ∀ location, before.Denotes file location →
      after.entry? location = before.entry? location) (parser : Parser) (options : Options) :
    after.transform parser options file = before.transform parser options file := by
  have sameText : after.readText (Path.ofText file) = before.readText (Path.ofText file) := by
    rw [readText, readText, same.read_eq held]
  have sameUnit : after.unit file none = before.unit file none := by
    simp only [unit, contains, same.locate_eq, sameText]
  unfold transform
  rw [sameUnit]

theorem text_of_unit {files : FileSystem} {languageName : Option String} {unit : SourceUnit}
    (success : files.unit file languageName = .ok unit) :
    files.readText (Path.ofText file) = .ok unit.text := by
  obtain ⟨present, _, success⟩ := bind_eq_ok_iff.mp success
  cases present with
  | false => exact nomatch success
  | true =>
      cases languageName with
      | some name =>
          obtain ⟨text, read, success⟩ := bind_eq_ok_iff.mp success
          obtain ⟨language, _, success⟩ := bind_eq_ok_iff.mp success
          rw [read, ← Except.ok.inj success]
      | none =>
          obtain ⟨language, _, success⟩ := bind_eq_ok_iff.mp success
          obtain ⟨text, read, success⟩ := bind_eq_ok_iff.mp success
          rw [read, ← Except.ok.inj success]

theorem result_transform {files : FileSystem} {unit : SourceUnit}
    (found : files.unit file none = .ok unit) (parser : Parser) (options : Options) :
    (files.transform parser options file).result =
      (unit.transform parser options).mapError .unit := by
  unfold transform
  rw [found, ← SourceUnit.result_transformTraced]

/-- A file that is transformed is there, and holds the source. -/
theorem exists_denotes_of_transform {files : FileSystem} {parser : Parser} {options : Options}
    {transformed : Transformed}
    (success : (files.transform parser options file).result = .ok transformed) :
    ∃ location, files.Denotes file location ∧
      files.entry? location = some (.file (Utf8.encode transformed.source)) := by
  cases found : files.unit file none with
  | error failure =>
      unfold transform at success
      rw [found] at success
      exact nomatch success
  | ok unit =>
      rw [result_transform found] at success
      have source : transformed.source = unit.text :=
        SourceUnit.source_of_transform (mapError_eq_ok_iff.mp success)
      obtain ⟨octets, read, decoded⟩ := bind_eq_ok_iff.mp (text_of_unit found)
      obtain ⟨_, location, located, held⟩ := read_eq_ok_iff.mp (mapError_eq_ok_iff.mp read)
      refine ⟨location, located, ?_⟩
      rw [held, source, Utf8.decode_eq_ok_iff.mp (mapError_eq_ok_iff.mp decoded)]

end

end FileSystem

namespace Batch

open FileSystem

/-! ## Settling what came of a transform -/

/-- What comes of a file when its unit has been transformed or has failed: the second half of
processing it. -/
def settle (batch : Batch) (files : FileSystem) (file : String) :
    Except FileFailure Transformed → Processed
  | .ok transformed => (batch.store files file transformed).result
  | .error (.unknownLanguage unknown) =>
      ⟨files, { file, status := .skipped, error := some unknown.message }⟩
  | .error failure => ⟨files, { file, status := .error, error := some failure.message }⟩

theorem result_process (batch : Batch) (parser : Parser) (files : FileSystem) (file : String) :
    (batch.process parser files file).result =
      batch.settle files file (files.transform parser batch.options file).result := by
  unfold process
  dsimp only
  cases (files.transform parser batch.options file).result with
  | ok transformed => rfl
  | error failure => cases failure <;> rfl

/-- Settling an outcome writes `content` to the file at a location. -/
structure Writes (batch : Batch) (files : FileSystem) (file : String)
    (outcome : Except FileFailure Transformed) (location : Location) (content : Bytes) : Prop where
  wet : batch.dryRun = false
  unclosed : (Path.ofText file).text ∉ files.unwritable
  denotes : files.Denotes file location
  held : ∃ old, files.entry? location = some (.file old)
  changed : ∃ transformed, outcome = .ok transformed ∧ transformed.output ≠ transformed.source ∧
    content = Utf8.encode transformed.output

section

variable {batch : Batch} {files before after : FileSystem} {file : String}
  {outcome : Except FileFailure Transformed} {transformed : Transformed}

theorem changed_iff : transformed.changed = true ↔ transformed.output ≠ transformed.source :=
  bne_iff_ne

theorem settle_of_not_moved
    (stays : ¬ (transformed.output ≠ transformed.source ∧ batch.dryRun = false)) :
    batch.settle files file (.ok transformed) = ⟨files, batch.resultOf file transformed⟩ := by
  rw [settle, store, if_neg]
  rwa [Bool.and_eq_true, changed_iff, Bool.not_eq_true']

theorem settle_of_write_eq_ok (different : transformed.output ≠ transformed.source)
    (wet : batch.dryRun = false)
    (written : files.write (Path.ofText file) (Utf8.encode transformed.output) = .ok after) :
    batch.settle files file (.ok transformed) = ⟨after, batch.resultOf file transformed⟩ := by
  rw [settle, store, if_pos, written]
  rw [changed_iff.mpr different, wet]
  rfl

theorem settle_of_write_eq_error {failure : AccessFailure}
    (different : transformed.output ≠ transformed.source) (wet : batch.dryRun = false)
    (refused : files.write (Path.ofText file) (Utf8.encode transformed.output) = .error failure) :
    batch.settle files file (.ok transformed) =
      ⟨files, { batch.resultOf file transformed with
        status := .error, error := some ("Failed to write: " ++ failure.message) }⟩ := by
  rw [settle, store, if_pos, refused]
  rw [changed_iff.mpr different, wet]
  rfl

theorem status_resultOf :
    (batch.resultOf file transformed).status = .ok ↔ transformed.output ≠ transformed.source := by
  rw [← changed_iff]
  cases changed : transformed.changed <;> simp [resultOf, changed]

/-- **What settling an outcome does.** A changed text that can be written is written, and the file
counts as changed. In every other case the file system stays as it is, and the file counts as
changed only when nothing is to be written. -/
theorem settle_cases (batch : Batch) (files : FileSystem) (file : String)
    (outcome : Except FileFailure Transformed) :
    let settled := batch.settle files file outcome
    (∃ location content, batch.Writes files file outcome location content ∧
        settled.files = files.replace location content ∧ settled.result.status = .ok) ∨
      (∀ location content, ¬ batch.Writes files file outcome location content) ∧
        settled.files = files ∧ (settled.result.status = .ok → batch.dryRun = true) := by
  intro settled
  cases outcome with
  | error failure =>
      refine .inr ⟨fun location content writes => ?_, ?_⟩
      · obtain ⟨_, impossible, _⟩ := writes.changed
        exact nomatch impossible
      · cases failure <;> exact ⟨rfl, fun impossible => nomatch impossible⟩
  | ok transformed =>
      by_cases moves : transformed.output ≠ transformed.source ∧ batch.dryRun = false
      · obtain ⟨different, wet⟩ := moves
        cases written : files.write (Path.ofText file) (Utf8.encode transformed.output) with
        | ok after =>
            have outcome : settled = _ := settle_of_write_eq_ok different wet written
            obtain ⟨unclosed, location, old, located, held, rfl⟩ := write_eq_ok_iff.mp written
            rw [outcome]
            exact .inl ⟨location, _, ⟨wet, unclosed, located, ⟨old, held⟩,
              ⟨transformed, rfl, different, rfl⟩⟩, rfl, status_resultOf.mpr different⟩
        | error failure =>
            have outcome : settled = _ := settle_of_write_eq_error different wet written
            rw [outcome]
            refine .inr
              ⟨fun location content writes => ?_, rfl, fun impossible => nomatch impossible⟩
            obtain ⟨old, held⟩ := writes.held
            have success :
                files.write (Path.ofText file) (Utf8.encode transformed.output) = .ok _ :=
              write_eq_ok_iff.mpr ⟨writes.unclosed, location, old, writes.denotes, held, rfl⟩
            exact nomatch written.symm.trans success
      · have outcome : settled = _ := settle_of_not_moved moves
        rw [outcome]
        refine .inr ⟨fun location content writes => ?_, rfl, fun changed => ?_⟩
        · obtain ⟨_, ⟨⟩, different, _⟩ := writes.changed
          exact moves ⟨different, writes.wet⟩
        · have dry := not_and.mp moves (status_resultOf.mp changed)
          exact Bool.not_eq_false _ |>.mp dry

theorem file_settle (batch : Batch) (files : FileSystem) (file : String)
    (outcome : Except FileFailure Transformed) :
    (batch.settle files file outcome).result.file = file := by
  cases outcome with
  | error failure => cases failure <;> rfl
  | ok transformed =>
      rw [settle, store]
      split
      · cases files.write (Path.ofText file) (Utf8.encode transformed.output) <;> rfl
      · rfl

theorem sameTree_settle (batch : Batch) (files : FileSystem) (file : String)
    (outcome : Except FileFailure Transformed) :
    files.SameTree (batch.settle files file outcome).files := by
  rcases batch.settle_cases files file outcome with ⟨location, content, _, after, _⟩ | ⟨_, after, _⟩
  · rw [after]
    exact files.sameTree_replace location content
  · rw [after]
    exact .refl files

theorem files_settle_of_dryRun (dry : batch.dryRun = true) :
    (batch.settle files file outcome).files = files := by
  rcases batch.settle_cases files file outcome with ⟨_, _, writes, _⟩ | ⟨_, after, _⟩
  · exact nomatch dry.symm.trans writes.wet
  · exact after

/-- **A location that is not that of a changed file keeps what it holds.** -/
theorem entry?_settle {location : Location}
    (elsewhere : ¬ ((batch.settle files file outcome).result.status = .ok ∧
      files.Denotes file location)) :
    entry? (batch.settle files file outcome).files location = files.entry? location := by
  rcases batch.settle_cases files file outcome with
    ⟨place, content, writes, after, changed⟩ | ⟨_, after, _⟩
  · rw [after]
    apply entry?_replace_of_ne
    rintro rfl
    exact elsewhere ⟨changed, writes.denotes⟩
  · rw [after]

/-- Settling an outcome gives the same result in file systems with the same tree. -/
theorem result_settle_eq (same : before.SameTree after) :
    (batch.settle after file outcome).result = (batch.settle before file outcome).result := by
  cases outcome with
  | error failure => cases failure <;> rfl
  | ok transformed =>
      by_cases moves : transformed.output ≠ transformed.source ∧ batch.dryRun = false
      · obtain ⟨different, wet⟩ := moves
        cases written : before.write (Path.ofText file) (Utf8.encode transformed.output) with
        | error failure =>
            rw [settle_of_write_eq_error different wet written,
              settle_of_write_eq_error different wet (same.write_eq_error_iff.mpr written)]
        | ok stored =>
            cases writtenToo : after.write (Path.ofText file) (Utf8.encode transformed.output) with
            | error failure =>
                exact nomatch written.symm.trans (same.write_eq_error_iff.mp writtenToo)
            | ok storedToo =>
                rw [settle_of_write_eq_ok different wet written,
                  settle_of_write_eq_ok different wet writtenToo]
      · rw [settle_of_not_moved moves, settle_of_not_moved moves]

/-- File systems with the same tree are written in the same places. -/
theorem Writes.of_sameTree {location : Location} {content : Bytes}
    (writes : batch.Writes before file outcome location content) (same : before.SameTree after) :
    batch.Writes after file outcome location content where
  wet := writes.wet
  unclosed := same.unwritable ▸ writes.unclosed
  denotes := same.denotes_iff.mpr writes.denotes
  held := by
    obtain ⟨old, held⟩ := writes.held
    rcases same.cases location with equal | ⟨_, new, _, found⟩
    · exact ⟨old, equal.trans held⟩
    · exact ⟨new, found⟩
  changed := writes.changed

theorem Writes.unique {location place : Location} {content written : Bytes}
    (writes : batch.Writes files file outcome location content)
    (writesToo : batch.Writes files file outcome place written) :
    place = location ∧ written = content := by
  obtain ⟨transformed, rfl, _, rfl⟩ := writes.changed
  obtain ⟨_, ⟨⟩, _, rfl⟩ := writesToo.changed
  exact ⟨writesToo.denotes.unique writes.denotes, rfl⟩

/-- **Settling an outcome makes the same change to file systems with the same tree.** -/
theorem files_settle_cases (same : before.SameTree after) (batch : Batch) (file : String)
    (outcome : Except FileFailure Transformed) :
    (batch.settle before file outcome).files = before ∧
        (batch.settle after file outcome).files = after ∨
      ∃ location content, before.Denotes file location ∧
        (batch.settle before file outcome).files = before.replace location content ∧
        (batch.settle after file outcome).files = after.replace location content := by
  rcases batch.settle_cases before file outcome with ⟨location, content, writes, changed, _⟩ |
      ⟨stays, kept, _⟩ <;>
    rcases batch.settle_cases after file outcome with ⟨place, written, writesToo, changedToo, _⟩ |
      ⟨staysToo, keptToo, _⟩
  · obtain ⟨rfl, rfl⟩ := (writes.of_sameTree same).unique writesToo
    exact .inr ⟨_, _, writes.denotes, changed, changedToo⟩
  · exact absurd (writes.of_sameTree same) (staysToo _ _)
  · exact absurd (writesToo.of_sameTree same.symm) (stays _ _)
  · exact .inl ⟨kept, keptToo⟩

end

end Batch

end Unqualify
