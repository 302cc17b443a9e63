import Unqualify.Proofs.Batch.Found
import Unqualify.Proofs.Batch.Independence

/-!
# Paths that overlap

No text is found twice, but a file can be: texts are told apart as they are written, and `..` and
links let several of them denote one file. Two of the given paths can only meet in a file when the
location of one lies below the location of the other. The files that are found are different files
exactly when, in each such case, the one path is also written as the other with the names in between
(`found_apart_iff`).
-/

set_option autoImplicit false

namespace Unqualify.Batch

open FileSystem

/-- The path that denotes a location lists the file that lies a way below it: the location itself
when it is a file, and the wanted files below it when it is a directory. -/
structure Lists (batch : Batch) (files : FileSystem) (text : String)
    (location way : Location) : Prop where
  denotes : files.Denotes text location
  cases : (way = [] ∧ ∃ content, files.entry? location = some (.file content)) ∨
    files.Leads location way ∧ batch.Wants way

/-- Wherever the location of one path lies below the location of another and both list a file, the
one path is written as the other with the names in between. -/
def WrittenAlike (batch : Batch) (files : FileSystem) (paths : List String) : Prop :=
  ∀ outer ∈ paths, ∀ inner ∈ paths, ∀ location between way,
    batch.Lists files outer location (between ++ way) →
    batch.Lists files inner (location ++ between) way →
    Path.ofText inner = (Path.ofText outer).below between

section

variable {batch : Batch} {files : FileSystem} {text file : String} {location way place : Location}
  {paths found listed : List String}

/-! ## The texts of the files that are listed -/

theorem Lists.isPlain (wellFormed : files.WellFormed)
    (lists : batch.Lists files text location way) : ((Path.ofText text).below way).IsPlain := by
  apply (Path.isPlain_ofText text).below
  rcases lists.cases with ⟨rfl, _⟩ | ⟨leads, _⟩
  · exact fun _ none => absurd none List.not_mem_nil
  · exact fun name among => (leads.isName wellFormed name among).toIsPart

/-- The text of a file that a walk can look up denotes this file. -/
theorem Lists.denotes_below (wellFormed : files.WellFormed) (walkable : files.Walkable text)
    (lists : batch.Lists files text location way) :
    files.Denotes ((Path.ofText text).below way).text (location ++ way) := by
  rw [Denotes, Path.ofText_text (lists.isPlain wellFormed)]
  rcases lists.cases with ⟨rfl, _⟩ | ⟨leads, _⟩
  · rw [Path.below, List.append_nil, List.append_nil]
    exact lists.denotes
  · obtain ⟨content, heldBelow⟩ := leads.exists_file
    refine leads.locate_below wellFormed lists.denotes ?_
    rcases walkable with ⟨denotes, held⟩ | ⟨denotes, allowed⟩
    · -- There is nothing below a file.
      rw [denotes.unique lists.denotes] at held
      cases held.symm.trans (wellFormed.directory_of_append leads.ne_nil heldBelow)
    · rw [denotes.unique lists.denotes] at allowed
      exact allowed way (wellFormed.mem_met_iff.mpr ⟨leads.comesTo, _, heldBelow⟩)

/-! ## The texts that are found -/

theorem StandsFor.mem_iff (wellFormed : files.WellFormed)
    (stands : batch.StandsFor files text listed) :
    file ∈ listed ↔ ∃ location way,
      batch.Lists files text location way ∧ ((Path.ofText text).below way).text = file := by
  cases stands with
  | file denotes held =>
      rw [List.mem_singleton]
      constructor
      · rintro rfl
        refine ⟨_, [], ⟨denotes, .inl ⟨rfl, _, held⟩⟩, ?_⟩
        rw [Path.below, List.append_nil]
      · rintro ⟨place, way, lists, rfl⟩
        obtain rfl := lists.denotes.unique denotes
        rcases lists.cases with ⟨rfl, _⟩ | ⟨leads, _⟩
        · rw [Path.below, List.append_nil]
        · -- There is nothing below a file.
          obtain ⟨content, heldBelow⟩ := leads.exists_file
          have inside := wellFormed.directory_of_append leads.ne_nil heldBelow
          exact nomatch held.symm.trans inside
  | directory denotes held exact ordered =>
      rw [List.mem_map]
      constructor
      · rintro ⟨way, among, rfl⟩
        exact ⟨_, way, ⟨denotes, .inr ((exact way).mp among)⟩, rfl⟩
      · rintro ⟨place, way, lists, rfl⟩
        obtain rfl := lists.denotes.unique denotes
        rcases lists.cases with ⟨_, content, heldToo⟩ | wanted
        · exact nomatch held.symm.trans heldToo
        · exact ⟨way, (exact way).mpr wanted, rfl⟩

theorem mem_flatten_iff (wellFormed : files.WellFormed) {listing : List (List String)}
    (stand : List.Forall₂ (batch.StandsFor files) paths listing) :
    file ∈ listing.flatten ↔ ∃ text ∈ paths, ∃ location way,
      batch.Lists files text location way ∧ ((Path.ofText text).below way).text = file := by
  induction stand with
  | nil => simp
  | cons stands others ih =>
      rw [List.flatten_cons, List.mem_append, stands.mem_iff wellFormed, ih]
      simp only [List.mem_cons, exists_eq_or_imp]

theorem mem_found_iff (wellFormed : files.WellFormed)
    (discovered : batch.discover files paths = .ok found) :
    file ∈ found ↔ ∃ text ∈ paths, ∃ location way,
      batch.Lists files text location way ∧ ((Path.ofText text).below way).text = file := by
  obtain ⟨listing, stand, lists⟩ := standsFor_of_discover wellFormed discovered
  rw [lists.mem_iff, mem_flatten_iff wellFormed stand]

theorem nodup_found (discovered : batch.discover files paths = .ok found) : found.Nodup := by
  obtain ⟨listing, _, rfl⟩ := discover_eq_ok_iff.mp discovered
  exact (MemberSet.firstSeen_listsFirstSeen _).nodup

/-! ## Different files -/

/-- Paths that are written alike where they meet list one file under one text. -/
theorem WrittenAlike.text_eq (alike : batch.WrittenAlike files paths) {outer inner : String}
    (among : outer ∈ paths) (amongToo : inner ∈ paths) {between : Location}
    (lists : batch.Lists files outer location (between ++ way))
    (listsToo : batch.Lists files inner (location ++ between) way) :
    ((Path.ofText outer).below (between ++ way)).text = ((Path.ofText inner).below way).text := by
  rw [alike outer among inner amongToo location between way lists listsToo]
  simp only [Path.below, List.append_assoc]

theorem WrittenAlike.pairwise_different (alike : batch.WrittenAlike files paths)
    (wellFormed : files.WellFormed) (discovered : batch.discover files paths = .ok found) :
    found.Pairwise files.Different := by
  have walkable := exists_discover_iff.mp ⟨_, discovered⟩
  apply (nodup_found discovered).pairwise_of_forall_ne
  intro file listed other listedToo apart place denotes denotesToo
  obtain ⟨text, among, location, way, lists, rfl⟩ :=
    (mem_found_iff wellFormed discovered).mp listed
  obtain ⟨textToo, amongToo, locationToo, wayToo, listsToo, rfl⟩ :=
    (mem_found_iff wellFormed discovered).mp listedToo
  have same : locationToo ++ wayToo = location ++ way :=
    ((listsToo.denotes_below wellFormed (walkable _ amongToo)).unique denotesToo).trans
      (denotes.unique (lists.denotes_below wellFormed (walkable _ among)))
  apply apart
  -- Two ways to one file start at locations of which one lies below the other.
  rcases List.append_eq_append_iff.mp same with ⟨between, rfl, rfl⟩ | ⟨between, rfl, rfl⟩
  · exact (alike.text_eq amongToo among listsToo lists).symm
  · exact alike.text_eq among amongToo lists listsToo

theorem writtenAlike_of_pairwise_different (wellFormed : files.WellFormed)
    (discovered : batch.discover files paths = .ok found)
    (different : found.Pairwise files.Different) : batch.WrittenAlike files paths := by
  have walkable := exists_discover_iff.mp ⟨_, discovered⟩
  intro outer among inner amongToo location between way lists listsToo
  have listed := (mem_found_iff wellFormed discovered).mpr ⟨outer, among, _, _, lists, rfl⟩
  have listedToo := (mem_found_iff wellFormed discovered).mpr ⟨inner, amongToo, _, _, listsToo, rfl⟩
  have same : ((Path.ofText outer).below (between ++ way)).text =
      ((Path.ofText inner).below way).text := by
    by_contra apart
    have denotesToo := listsToo.denotes_below wellFormed (walkable _ amongToo)
    rw [List.append_assoc] at denotesToo
    exact different.forall listed listedToo apart _
      (lists.denotes_below wellFormed (walkable _ among)) denotesToo
  have paths := (lists.isPlain wellFormed).eq_of_text_eq (listsToo.isPlain wellFormed) same
  obtain ⟨anchors, parts⟩ := Path.mk.inj paths
  rw [← List.append_assoc] at parts
  exact congrArg₂ Path.mk anchors.symm (List.append_cancel_right parts).symm

theorem writtenAlike_of_denotes_parts {anchor : String}
    (anchored : ∀ text ∈ paths, (Path.ofText text).anchor = anchor)
    (plainly : ∀ text ∈ paths, files.Denotes text
      (origin files.workingDirectory (Path.ofText text) ++ (Path.ofText text).parts)) :
    batch.WrittenAlike files paths := by
  intro outer among inner amongToo location between way lists listsToo
  have anchors : (Path.ofText inner).anchor = (Path.ofText outer).anchor :=
    (anchored inner amongToo).trans (anchored outer among).symm
  have same := (plainly inner amongToo).unique listsToo.denotes
  rw [← (plainly outer among).unique lists.denotes, origin, origin, anchors,
    List.append_assoc] at same
  exact congrArg₂ Path.mk anchors (List.append_cancel_left same)

end

/-- **When the files that are found are different files.** No text is found twice. No two of the
texts denote one file exactly when the given paths are written alike wherever they meet, and this is
so when they have one anchor and each of them denotes the very names that it is written with: no
`..`, and no link on the way. -/
theorem found_apart_iff (batch : Batch) (files : FileSystem) (wellFormed : files.WellFormed)
    (paths found : List String) (discovered : batch.discover files paths = .ok found) :
    found.Nodup ∧
      (found.Pairwise files.Different ↔ batch.WrittenAlike files paths) ∧
      ∀ anchor, (∀ text ∈ paths, (Path.ofText text).anchor = anchor) →
        (∀ text ∈ paths, files.Denotes text
          (origin files.workingDirectory (Path.ofText text) ++ (Path.ofText text).parts)) →
        found.Pairwise files.Different := by
  refine ⟨nodup_found discovered, ⟨writtenAlike_of_pairwise_different wellFormed discovered, ?_⟩,
    ?_⟩
  · exact fun alike => alike.pairwise_different wellFormed discovered
  · intro anchor anchored plainly
    exact (writtenAlike_of_denotes_parts anchored plainly).pairwise_different wellFormed discovered

/-- A directory and a file in it are given: the file is found once. -/
theorem found_apart_project :
    Sample.standardBatch.discover Sample.project ["notes.md", "src", "src/App.tsx"] =
        .ok ["notes.md", "src/App.tsx"] ∧
      ["notes.md", "src/App.tsx"].Pairwise Sample.project.Different := by
  have discovered : Sample.standardBatch.discover Sample.project
      ["notes.md", "src", "src/App.tsx"] = .ok ["notes.md", "src/App.tsx"] := by
    decide +kernel
  obtain ⟨_, _, apart⟩ := found_apart_iff Sample.standardBatch Sample.project
    Sample.wellFormed_project _ _ discovered
  refine ⟨discovered, apart "" ?_ ?_⟩ <;> decide +kernel

/-- A directory is given twice, the second time through `..`: its file is found under two texts. -/
theorem found_twice_project :
    Sample.project.WellFormed ∧
      Sample.standardBatch.discover Sample.project ["src", "src/../src"] =
        .ok ["src/App.tsx", "src/../src/App.tsx"] ∧
      Sample.project.Denotes "src/App.tsx" ["src", "App.tsx"] ∧
      Sample.project.Denotes "src/../src/App.tsx" ["src", "App.tsx"] ∧
      ¬ ["src/App.tsx", "src/../src/App.tsx"].Pairwise Sample.project.Different := by
  have denotesToo : Sample.project.Denotes "src/../src/App.tsx" ["src", "App.tsx"] := by
    decide +kernel
  refine ⟨Sample.wellFormed_project, by decide +kernel, Sample.denotes_project, denotesToo, ?_⟩
  rw [List.pairwise_pair]
  exact fun different => different _ Sample.denotes_project denotesToo

end Unqualify.Batch
