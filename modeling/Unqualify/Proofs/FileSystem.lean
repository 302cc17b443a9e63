import Mathlib.Data.List.Basic
import Unqualify.FileSystem

/-!
# What paths denote, and what writing changes

Where a path leads is decided by directories and links, not by what files hold: two file systems
with the same tree send every path to the same location (`SameTree.locate_eq`). Writing replaces the
content of one file and keeps the tree (`sameTree_replace`), and contents that are replaced at two
locations may be replaced in either order (`replace_comm`).
-/

set_option autoImplicit false

namespace Unqualify

namespace FileSystem

/-- A path text leads to a location, links followed. -/
def Denotes (files : FileSystem) (text : String) (location : Location) : Prop :=
  files.locate (Path.ofText text) = .ok location

instance (files : FileSystem) (text : String) (location : Location) :
    Decidable (files.Denotes text location) :=
  inferInstanceAs (Decidable (files.locate (Path.ofText text) = .ok location))

theorem exists_denotes_iff {files : FileSystem} {text : String} :
    (∃ location, files.Denotes text location) ↔ (files.locate (Path.ofText text)).isOk = true := by
  unfold Denotes
  cases files.locate (Path.ofText text) with
  | error obstacle => exact iff_of_false nofun nofun
  | ok location => exact iff_of_true ⟨location, rfl⟩ rfl

instance (files : FileSystem) (text : String) :
    Decidable (∃ location, files.Denotes text location) :=
  decidable_of_iff _ exists_denotes_iff.symm

/-- Two file systems differ at most in what their files hold. -/
structure SameTree (before after : FileSystem) : Prop where
  /-- A location holds the same in both, or a file in both. -/
  cases : ∀ location, after.entry? location = before.entry? location ∨
    ∃ old new,
      before.entry? location = some (.file old) ∧ after.entry? location = some (.file new)
  /-- Apart from their entries they are alike. -/
  settings : { before with entries := after.entries } = after

theorem Denotes.unique {files : FileSystem} {text : String} {first second : Location}
    (denotes : files.Denotes text first) (denotesToo : files.Denotes text second) :
    first = second :=
  Except.ok.inj (denotes.symm.trans denotesToo)

namespace SameTree

theorem refl (files : FileSystem) : files.SameTree files :=
  ⟨fun _ => .inl rfl, rfl⟩

theorem symm {a b : FileSystem} (same : a.SameTree b) : b.SameTree a where
  cases location := by
    rcases same.cases location with equal | ⟨old, new, first, second⟩
    · exact .inl equal.symm
    · exact .inr ⟨new, old, second, first⟩
  settings := by rw [← same.settings]

theorem trans {a b c : FileSystem} (first : a.SameTree b) (second : b.SameTree c) :
    a.SameTree c where
  cases location := by
    rcases first.cases location with equal | ⟨old, new, held, heldToo⟩
    · rw [← equal]
      exact second.cases location
    · rcases second.cases location with equal | ⟨_, newest, _, heldLast⟩
      · exact .inr ⟨old, new, held, equal.trans heldToo⟩
      · exact .inr ⟨old, newest, held, heldLast⟩
  settings := by rw [← second.settings, ← first.settings]

variable {before after : FileSystem}

theorem workingDirectory (same : before.SameTree after) :
    after.workingDirectory = before.workingDirectory := by
  rw [← same.settings]

theorem searches_eq (same : before.SameTree after) : after.searches = before.searches := by
  rw [← same.settings]
  rfl

theorem unreadable (same : before.SameTree after) : after.unreadable = before.unreadable := by
  rw [← same.settings]

theorem unwritable (same : before.SameTree after) : after.unwritable = before.unwritable := by
  rw [← same.settings]

theorem walk_eq (same : before.SameTree after)
    (follow : Location → List String → Except Obstacle Location) (location : Location)
    (names : List String) :
    after.walk follow location names = before.walk follow location names := by
  induction names generalizing location with
  | nil => simp only [walk]
  | cons name rest ih =>
      simp only [walk, ih, same.searches_eq]
      rcases same.cases location with equal | ⟨old, new, first, second⟩
      · -- Below a directory only links count, and a link is no file.
        rw [equal]
        rcases same.cases (location ++ [name]) with equal | ⟨old, new, first, second⟩
        · rw [equal]
        · rw [first, second]
      · simp [first, second]

theorem resolve_eq (same : before.SameTree after) (links : Nat) :
    after.resolve links = before.resolve links := by
  induction links with
  | zero =>
      funext location names
      exact same.walk_eq _ location names
  | succ links ih =>
      funext location names
      rw [resolve, resolve, ih]
      exact same.walk_eq _ location names

/-- **Where a path leads does not depend on what files hold.** -/
theorem locate_eq (same : before.SameTree after) (path : Path) :
    after.locate path = before.locate path := by
  rw [locate, locate, same.resolve_eq, same.searches_eq, same.workingDirectory]

theorem denotes_iff (same : before.SameTree after) {text : String} {location : Location} :
    after.Denotes text location ↔ before.Denotes text location := by
  rw [Denotes, Denotes, same.locate_eq]

end SameTree

/-! ## Replacing what a file holds -/

section

variable (files : FileSystem) (location : Location) (content : Bytes)

/-- What is stored after the content at the location has been replaced. -/
def refilled (stored : Location × Entry) : Location × Entry :=
  (stored.1,
    match stored.2 with
    | .file old => .file (if stored.1 = location then content else old)
    | other => other)

theorem replace_eq_map :
    files.replace location content =
      { files with entries := files.entries.map (refilled location content) } := by
  unfold replace
  congr 2
  funext ⟨place, entry⟩
  cases entry with
  | file old => simp only [refilled, beq_iff_eq]
  | directory => rfl
  | link target => rfl

variable {files}

theorem entry?_replace {place : Location} {held : Option Entry}
    (holds : files.entry? place = held) :
    entry? (files.replace location content) place =
      held.map fun entry => (refilled location content (place, entry)).2 := by
  rw [replace_eq_map, ← holds]
  unfold entry?
  split
  next => rfl
  next =>
    have keeps : (fun stored : Location × Entry => stored.1 == place) ∘ refilled location content =
        fun stored => stored.1 == place := rfl
    rw [List.find?_map, keeps, Option.map_map, Option.map_map]
    apply Option.map_congr
    intro stored found
    have here : stored.1 = place := by simpa using List.find?_some found
    rw [← here]
    rfl

theorem entry?_replace_of_ne {place : Location} (other : place ≠ location) :
    entry? (files.replace location content) place = files.entry? place := by
  rw [entry?_replace location content rfl]
  cases files.entry? place with
  | none => rfl
  | some entry => cases entry <;> simp [refilled, other]

theorem entry?_replace_self {old : Bytes} (held : files.entry? location = some (.file old)) :
    entry? (files.replace location content) location = some (.file content) := by
  rw [entry?_replace location content held]
  simp [refilled]

variable (files)

/-- **Replacing a content keeps the tree.** -/
theorem sameTree_replace : files.SameTree (files.replace location content) where
  cases place := by
    by_cases here : place = location
    · subst here
      cases held : files.entry? place with
      | none => exact .inl (entry?_replace place content held)
      | some entry =>
          cases entry with
          | file old => exact .inr ⟨old, content, rfl, entry?_replace_self place content held⟩
          | directory => exact .inl (entry?_replace place content held)
          | link target => exact .inl (entry?_replace place content held)
    · exact .inl (entry?_replace_of_ne location content here)
  settings := rfl

/-- **Contents of different files can be replaced in either order.** -/
theorem replace_comm {location place : Location} (other : location ≠ place)
    (content written : Bytes) :
    (files.replace location content).replace place written =
      (files.replace place written).replace location content := by
  simp only [replace_eq_map, List.map_map]
  congr 2
  funext ⟨held, entry⟩
  cases entry with
  | file old =>
      by_cases here : held = location
      · simp [refilled, here, other]
      · simp [refilled, here]
  | directory => rfl
  | link target => rfl

end

/-! ## Reading and writing -/

section

variable {files before after : FileSystem} {path : Path} {content : Bytes}

theorem read_eq_ok_iff :
    files.read path = .ok content ↔
      path.text ∉ files.unreadable ∧
        ∃ location, files.locate path = .ok location ∧
          files.entry? location = some (.file content) := by
  unfold read
  by_cases closed : path.text ∈ files.unreadable
  · simp [closed]
  · simp only [List.contains_eq_mem, closed, decide_false, Bool.false_eq_true, if_false,
      not_false_eq_true, true_and]
    cases files.locate path with
    | error obstacle => simp
    | ok location =>
        simp only [Except.ok.injEq, exists_eq_left']
        cases files.entry? location with
        | none => simp
        | some entry => cases entry <;> simp

/-- **A file is written exactly when its path is open to writing and denotes a file.** -/
theorem write_eq_ok_iff :
    files.write path content = .ok after ↔
      path.text ∉ files.unwritable ∧
        ∃ location old, files.locate path = .ok location ∧
          files.entry? location = some (.file old) ∧ after = files.replace location content := by
  unfold write
  by_cases closed : path.text ∈ files.unwritable
  · simp [closed]
  · simp only [List.contains_eq_mem, closed, decide_false, Bool.false_eq_true, if_false,
      not_false_eq_true, true_and]
    cases files.locate path with
    | error obstacle => simp
    | ok location =>
        simp only [Except.ok.injEq, exists_and_left, exists_eq_left']
        cases files.entry? location with
        | none => simp
        | some entry => cases entry <;> simp [eq_comm]

/-- File systems with the same tree fail to write for the same reason. -/
theorem SameTree.write_eq_error_iff (same : before.SameTree after) {failure : AccessFailure} :
    after.write path content = .error failure ↔ before.write path content = .error failure := by
  unfold write
  rw [same.unwritable, same.locate_eq]
  split
  · rfl
  · cases before.locate path with
    | error obstacle => rfl
    | ok location =>
        rcases same.cases location with equal | ⟨old, new, first, second⟩
        · simp only [equal]
          cases before.entry? location with
          | none => simp
          | some entry => cases entry <;> simp
        · simp [first, second]

end

end FileSystem

end Unqualify
