import Mathlib.Data.List.Forall2
import Unqualify.Proofs.Batch.Effect
import Unqualify.Proofs.FileTree

/-!
# Which files are found

Below a directory a run finds the files that it wants, in the order in which a walk meets them: what
it picks among the sorted ways is the same list as what it would pick while walking the tree
(`sublist_waysBelow`). A run finds files as long as each of its paths leads somewhere and no walk
meets what it cannot look up. Then it lists the files that its paths stand for one path after the
other and keeps each text where it first occurs (`discover_exact`).
-/

set_option autoImplicit false

namespace Unqualify

theorem mapM_eq_ok_iff {ε α β : Type} {step : α → Except ε β} {inputs : List α} {outputs : List β} :
    inputs.mapM step = .ok outputs ↔
      List.Forall₂ (fun input output => step input = .ok output) inputs outputs := by
  induction inputs generalizing outputs with
  | nil =>
      rw [List.mapM_nil, List.forall₂_nil_left_iff]
      exact ⟨fun success => (Except.ok.inj success).symm, fun none => none ▸ rfl⟩
  | cons input rest ih =>
      rw [List.mapM_cons, List.forall₂_cons_left_iff]
      simp only [bind_eq_ok_iff, ih]
      constructor
      · rintro ⟨output, first, others, stepped, success⟩
        exact ⟨output, others, first, stepped, (Except.ok.inj success).symm⟩
      · rintro ⟨output, others, first, stepped, rfl⟩
        exact ⟨output, first, others, stepped, rfl⟩

/-- A failure of a whole traversal is that of one of its steps. -/
theorem exists_error_of_mapM {ε α β : Type} {step : α → Except ε β} {inputs : List α} {failure : ε}
    (failed : inputs.mapM step = .error failure) :
    ∃ input ∈ inputs, step input = .error failure := by
  induction inputs with
  | nil => cases failed
  | cons input rest ih =>
      rw [List.mapM_cons] at failed
      cases stepped : step input with
      | error reason =>
          rw [stepped] at failed
          obtain rfl := Except.error.inj failed
          exact ⟨input, .head _, stepped⟩
      | ok output =>
          cases others : rest.mapM step with
          | error reason =>
              rw [stepped, others] at failed
              obtain rfl := Except.error.inj failed
              obtain ⟨other, among, failedToo⟩ := ih others
              exact ⟨other, .tail _ among, failedToo⟩
          | ok outputs =>
              rw [stepped, others] at failed
              cases failed

namespace Batch

open FileSystem

/-! ## Below a directory -/

/-- A run wants the file at the end of a way: no name on the way is left out, and the suffix of the
last name is picked up. -/
structure Wants (batch : Batch) (way : Location) : Prop where
  keeps : ∀ name ∈ way, name ∉ batch.excluded
  suffix : ∃ front name suffix,
    way = front ++ [name] ∧ Path.HasSuffix name suffix ∧ suffix ∈ batch.extensions

section

variable {batch : Batch} {files : FileSystem} {directory way : Location} {content : Bytes}

theorem picks_file_iff (below : way ≠ []) :
    batch.picks way (.file content) = true ↔ batch.Wants way := by
  have kept : (!way.any fun name => batch.excluded.contains name) = true ↔
      ∀ name ∈ way, name ∉ batch.excluded := by
    simp
  rw [picks, Bool.and_eq_true, kept, List.contains_iff_mem]
  constructor
  · rintro ⟨keeps, picked⟩
    obtain ⟨front, name, rfl⟩ := (List.eq_nil_or_concat way).resolve_left below
    rw [List.concat_eq_append, Path.suffix_concat] at picked
    exact ⟨keeps, front, name, _, List.concat_eq_append, Path.hasSuffix_iff.mpr rfl, picked⟩
  · rintro ⟨keeps, front, name, suffix, rfl, hasSuffix, picked⟩
    rw [Path.suffix_concat, Path.hasSuffix_iff.mp hasSuffix]
    exact ⟨keeps, picked⟩

theorem exists_file_of_picks {entry : Entry} (picked : batch.picks way entry = true) :
    ∃ content, entry = .file content := by
  cases entry with
  | file content => exact ⟨content, rfl⟩
  | directory => exact nomatch picked
  | link target => exact nomatch picked

/-- **Below a directory a run finds the files that it wants.** -/
theorem mem_waysBelow (wellFormed : files.WellFormed) :
    way ∈ batch.waysBelow files directory ↔ files.Leads directory way ∧ batch.Wants way := by
  rw [waysBelow, List.mem_mergeSort, List.mem_filter, wellFormed.mem_met_iff, Option.any_eq_true,
    wellFormed.leads_iff]
  constructor
  · rintro ⟨⟨comes, _⟩, entry, held, picked⟩
    obtain ⟨content, rfl⟩ := exists_file_of_picks picked
    exact ⟨⟨comes, content, held⟩, (picks_file_iff (ne_nil_of_comesTo comes)).mp picked⟩
  · rintro ⟨⟨comes, content, held⟩, wants⟩
    exact ⟨⟨comes, _, held⟩, _, held, (picks_file_iff (ne_nil_of_comesTo comes)).mpr wants⟩

theorem pairwise_waysBelow (wellFormed : files.WellFormed) :
    (batch.waysBelow files directory).Pairwise (· < ·) := by
  have nodup : (batch.waysBelow files directory).Nodup :=
    (List.mergeSort_perm _ _).nodup_iff.mpr ((wellFormed.nodup_met directory).filter _)
  have sorted : (batch.waysBelow files directory).Pairwise (· ≤ ·) :=
    Path.pairwise_mergeSort_precedes _
  exact (sorted.and nodup).imp fun ⟨ordered, apart⟩ => lt_of_le_of_ne ordered apart

/-- **The wanted files stand in the order in which a walk meets them.** -/
theorem sublist_waysBelow (wellFormed : files.WellFormed) :
    (batch.waysBelow files directory).Sublist (files.filesBelow directory) := by
  have sorted : (batch.waysBelow files directory).Pairwise (· < ·) :=
    pairwise_waysBelow wellFormed
  have subset : batch.waysBelow files directory ⊆ files.filesBelow directory := by
    intro way among
    exact mem_filesBelow.mpr ((mem_waysBelow wellFormed).mp among).1
  have apart : (batch.waysBelow files directory).Nodup := sorted.imp ne_of_lt
  exact List.sublist_of_subperm_of_pairwise (List.subperm_of_subset apart subset) sorted
    (wellFormed.pairwise_filesBelow directory)

end

/-! ## What paths stand for -/

/-- The files that a path stands for, as texts and in order. A path to a file stands for itself, and
a path to a directory for the wanted files below it, in the order in which a walk meets them. -/
inductive StandsFor (batch : Batch) (files : FileSystem) (text : String) : List String → Prop
  | file {location : Location} {content : Bytes} (denotes : files.Denotes text location)
      (held : files.entry? location = some (.file content)) :
      StandsFor batch files text [(Path.ofText text).text]
  | directory {location : Location} {ways : List Location} (denotes : files.Denotes text location)
      (held : files.entry? location = some .directory)
      (exact : ∀ way, way ∈ ways ↔ files.Leads location way ∧ batch.Wants way)
      (ordered : ways.Sublist (files.filesBelow location)) :
      StandsFor batch files text (ways.map fun way => ((Path.ofText text).below way).text)

section

variable {batch : Batch} {files : FileSystem} {text : String} {location : Location}
  {paths listed found : List String}

/-- A path lists files when it leads to one, or to a directory in which a walk can look up all that
it comes to. -/
theorem exists_filesAt_iff :
    (∃ listed, batch.filesAt files text = .ok listed) ↔ files.Walkable text := by
  cases located : files.locate (Path.ofText text) with
  | error obstacle =>
      refine iff_of_false ?_ ?_
      · rintro ⟨listed, success⟩
        simp only [filesAt, located] at success
        split at success <;> cases success
      · rintro (⟨denotes, _⟩ | ⟨denotes, _⟩) <;> exact nomatch located.symm.trans denotes
  | ok location =>
      have denotes : files.Denotes text location := located
      simp only [filesAt, located]
      split
      next content held => exact iff_of_true ⟨_, rfl⟩ (.file denotes held)
      next other =>
        cases failed : files.walkFailure? (Path.ofText text) location with
        | none =>
            exact iff_of_true ⟨_, rfl⟩ (.directory denotes (walkFailure?_eq_none_iff.mp failed))
        | some failure =>
            refine iff_of_false nofun ?_
            rintro (⟨denotesToo, held⟩ | ⟨denotesToo, allowed⟩)
            · exact other _ (denotes.unique denotesToo ▸ held)
            · rw [denotes.unique denotesToo, walkFailure?_eq_none_iff.mpr allowed] at failed
              cases failed

/-- A path that leads somewhere fails to list files only when a walk is refused. -/
theorem exists_access_of_filesAt {failure : DiscoveryFailure}
    (denotes : files.Denotes text location) (failed : batch.filesAt files text = .error failure) :
    ∃ reason, failure = .access reason := by
  have located : files.locate (Path.ofText text) = .ok location := denotes
  simp only [filesAt, located] at failed
  split at failed
  · cases failed
  · split at failed
    · exact ⟨_, (Except.error.inj failed).symm⟩
    · cases failed

/-- **A path lists the files that it stands for.** -/
theorem standsFor_of_filesAt (wellFormed : files.WellFormed)
    (success : batch.filesAt files text = .ok listed) : batch.StandsFor files text listed := by
  cases located : files.locate (Path.ofText text) with
  | error obstacle =>
      simp only [filesAt, located] at success
      split at success <;> cases success
  | ok location =>
      rcases Denotes.isPlace wellFormed located with held | ⟨content, held⟩
      · simp only [filesAt, located, held] at success
        split at success
        next => cases success
        next =>
          obtain rfl := Except.ok.inj success
          exact .directory located held (fun _ => mem_waysBelow wellFormed)
            (sublist_waysBelow wellFormed)
      · simp only [filesAt, located, held, Except.ok.injEq] at success
        subst success
        exact .file located held

theorem exists_forall₂_filesAt_iff :
    (∃ listing, List.Forall₂ (fun text listed => batch.filesAt files text = .ok listed) paths
      listing) ↔ ∀ text ∈ paths, files.Walkable text := by
  induction paths with
  | nil => exact iff_of_true ⟨[], .nil⟩ nofun
  | cons text rest ih =>
      rw [List.forall_mem_cons, ← ih, ← @exists_filesAt_iff batch]
      constructor
      · rintro ⟨_, each⟩
        cases each with
        | cons success others => exact ⟨⟨_, success⟩, _, others⟩
      · rintro ⟨⟨listed, success⟩, listing, others⟩
        exact ⟨listed :: listing, .cons success others⟩

theorem discover_eq_ok_iff :
    batch.discover files paths = .ok found ↔
      ∃ listing, List.Forall₂ (fun text listed => batch.filesAt files text = .ok listed) paths
        listing ∧ firstSeen listing.flatten = found := by
  rw [discover, bind_eq_ok_iff]
  refine exists_congr fun listing => and_congr mapM_eq_ok_iff ?_
  exact ⟨Except.ok.inj, congrArg Except.ok⟩

theorem standsFor_of_discover (wellFormed : files.WellFormed)
    (discovered : batch.discover files paths = .ok found) :
    ∃ listing, List.Forall₂ (batch.StandsFor files) paths listing ∧
      MemberSet.ListsFirstSeen listing.flatten found := by
  obtain ⟨listing, each, rfl⟩ := discover_eq_ok_iff.mp discovered
  exact ⟨listing, each.imp fun _ _ => standsFor_of_filesAt wellFormed,
    MemberSet.firstSeen_listsFirstSeen _⟩

/-- Files are found exactly when every path lists some. -/
theorem exists_discover_iff :
    (∃ found, batch.discover files paths = .ok found) ↔ ∀ text ∈ paths, files.Walkable text := by
  rw [← @exists_forall₂_filesAt_iff batch]
  simp only [discover_eq_ok_iff]
  constructor
  · rintro ⟨_, listing, each, _⟩
    exact ⟨listing, each⟩
  · rintro ⟨listing, each⟩
    exact ⟨_, listing, each, rfl⟩

/-- Paths that all lead somewhere fail to be expanded only when a walk is refused. -/
theorem exists_access_of_discover
    (present : ∀ text ∈ paths, ∃ location, files.Denotes text location)
    (unwalkable : ∃ text ∈ paths, ¬ files.Walkable text) :
    ∃ reason, batch.discover files paths = .error (.access reason) := by
  cases discovered : batch.discover files paths with
  | ok found =>
      obtain ⟨text, among, unwalkable⟩ := unwalkable
      exact absurd (exists_discover_iff.mp ⟨_, discovered⟩ text among) unwalkable
  | error failure =>
      rw [discover] at discovered
      cases listed : paths.mapM (batch.filesAt files) with
      | ok listing =>
          rw [listed] at discovered
          cases discovered
      | error reason =>
          rw [listed] at discovered
          obtain rfl := Except.error.inj discovered
          obtain ⟨text, among, failed⟩ := exists_error_of_mapM listed
          obtain ⟨location, denotes⟩ := present text among
          obtain ⟨reason, rfl⟩ := exists_access_of_filesAt denotes failed
          exact ⟨reason, rfl⟩

end

/-- **A run finds exactly the files that its paths stand for.** It finds files exactly when there is
something at every path and no walk of a directory is refused. In a file system that is not closed
to looking up names it is enough that there is something at every path, as long as no path below
becomes too long. Then the files that the paths stand for are listed one path after the other, and
each text is kept where it first occurs. -/
theorem discover_exact (batch : Batch) (files : FileSystem) (wellFormed : files.WellFormed)
    (paths : List String) :
    ((∃ found, batch.discover files paths = .ok found) ↔ ∀ text ∈ paths, files.Walkable text) ∧
      (files.unsearchable = [] →
        (∀ text ∈ paths, ∃ location, files.Denotes text location ∧
          ∀ way ∈ files.met location,
            ((Path.ofText text).below way).text.utf8ByteSize ≤ pathLimit) →
        ∃ found, batch.discover files paths = .ok found) ∧
      ∀ found, batch.discover files paths = .ok found →
        ∃ listing, List.Forall₂ (batch.StandsFor files) paths listing ∧
          MemberSet.ListsFirstSeen listing.flatten found := by
  refine ⟨exists_discover_iff, fun unclosed present => exists_discover_iff.mpr ?_,
    fun _ => standsFor_of_discover wellFormed⟩
  intro text among
  obtain ⟨location, denotes, short⟩ := present text among
  exact denotes.walkable unclosed short

end Batch

theorem Sample.wellFormed_project : project.WellFormed := by
  decide +kernel

/-- A path to a file is taken as it is, also when it is a link or a text without a language. -/
theorem Batch.discover_exact_project :
    Sample.project.WellFormed ∧
      ∃ listing,
        Sample.standardBatch.discover Sample.project
          ["notes.md", "src/Link.tsx", "src", "src/App.tsx"] =
            .ok ["notes.md", "src/Link.tsx", "src/App.tsx"] ∧
        List.Forall₂ (Sample.standardBatch.StandsFor Sample.project)
          ["notes.md", "src/Link.tsx", "src", "src/App.tsx"] listing ∧
        MemberSet.ListsFirstSeen listing.flatten ["notes.md", "src/Link.tsx", "src/App.tsx"] := by
  have computed : Sample.standardBatch.discover Sample.project
      ["notes.md", "src/Link.tsx", "src", "src/App.tsx"] =
        .ok ["notes.md", "src/Link.tsx", "src/App.tsx"] := by
    decide +kernel
  obtain ⟨_, _, standFor⟩ :=
    discover_exact Sample.standardBatch Sample.project Sample.wellFormed_project _
  obtain ⟨listing, stands, lists⟩ := standFor _ computed
  exact ⟨Sample.wellFormed_project, listing, computed, stands, lists⟩

end Unqualify
