import Mathlib.Data.List.Induction
import Mathlib.Data.List.Sort
import Unqualify.Proofs.FileSystem
import Unqualify.Proofs.Path

/-!
# File trees

A file system is well formed when its entries make a tree: a location is stored once, what it lies
in is a directory, and its names are names that a file can have. Then a path leads to a file or a
directory (`Denotes.isPlace`), and a path that is extended by a way through directories leads on
along this way, if the last of these directories lets names be looked up (`Leads.locate_below`).

A walk of a directory takes the names in it in code point order and goes into each directory where
it meets it, unless it may not. It lists every way to a file once (`mem_filesBelow`), in the order
of the ways (`pairwise_filesBelow`).
-/

set_option autoImplicit false

namespace Unqualify

namespace FileSystem

/-! ## Well-formed file systems -/

/-- A name that an entry can have. -/
@[mk_iff]
structure IsName (name : String) : Prop extends Path.IsPart name where
  notUp : name ≠ ".."
  short : name.utf8ByteSize ≤ nameLimit
  nullFree : '\x00' ∉ name.toList

/-- The entries make a tree. -/
@[mk_iff]
structure WellFormed (files : FileSystem) : Prop where
  /-- A location is stored once. -/
  unique : (files.entries.map Prod.fst).Nodup
  /-- The root itself is not stored. -/
  below : ∀ stored ∈ files.entries, stored.1 ≠ []
  isName : ∀ stored ∈ files.entries, ∀ name ∈ stored.1, IsName name
  /-- What an entry lies in is a directory. -/
  parent : ∀ stored ∈ files.entries, files.entry? stored.1.dropLast = some .directory
  started : files.entry? files.workingDirectory = some .directory

instance (name : String) : Decidable (IsName name) :=
  decidable_of_iff _ (isName_iff name).symm

instance (files : FileSystem) : Decidable files.WellFormed :=
  decidable_of_iff _ (wellFormed_iff files).symm

section

variable {files : FileSystem} {location directory : Location} {entry : Entry} {name : String}

theorem mem_of_held (below : location ≠ []) (held : files.entry? location = some entry) :
    (location, entry) ∈ files.entries := by
  unfold entry? at held
  rw [if_neg (by simpa using below)] at held
  obtain ⟨⟨place, found⟩, first, rfl⟩ := Option.map_eq_some_iff.mp held
  obtain rfl : place = location := by simpa using List.find?_some first
  exact List.mem_of_find?_eq_some first

theorem exists_held_of_mem (among : (location, entry) ∈ files.entries) :
    ∃ first, files.entry? location = some first := by
  unfold entry?
  split
  · exact ⟨_, rfl⟩
  · have found : (files.entries.find? fun stored => stored.1 == location).isSome := by
      rw [List.find?_isSome]
      exact ⟨_, among, by simp⟩
    obtain ⟨stored, first⟩ := Option.isSome_iff_exists.mp found
    exact ⟨stored.2, by rw [first]; rfl⟩

namespace WellFormed

/-- What is stored under a location is what the location holds. -/
theorem mem_entries_iff (wellFormed : files.WellFormed) (below : location ≠ []) :
    (location, entry) ∈ files.entries ↔ files.entry? location = some entry := by
  refine ⟨fun among => ?_, mem_of_held below⟩
  obtain ⟨first, held⟩ := exists_held_of_mem among
  have amongToo := mem_of_held below held
  have same := List.inj_on_of_nodup_map wellFormed.unique among amongToo rfl
  rw [held, (Prod.mk.inj same).2]

theorem directory_of_held (wellFormed : files.WellFormed)
    (held : files.entry? (directory ++ [name]) = some entry) :
    files.entry? directory = some .directory := by
  have among := mem_of_held (by simp) held
  simpa using wellFormed.parent _ among

theorem isName_of_held (wellFormed : files.WellFormed)
    (held : files.entry? (directory ++ [name]) = some entry) : IsName name :=
  wellFormed.isName _ (mem_of_held (by simp) held) name (by simp)

end WellFormed

end

/-! ## Ways through directories -/

/-- A way from a directory to a file below it that a walk goes along: it passes through directories
only, whose names are listed, and each of them can be looked up in the one before. -/
inductive Leads (files : FileSystem) : Location → Location → Prop
  | file {directory : Location} {name : String} {content : Bytes}
      (listed : files.lists directory = true)
      (held : files.entry? (directory ++ [name]) = some (.file content)) :
      Leads files directory [name]
  | directory {directory way : Location} {name : String}
      (listed : files.lists directory = true) (searched : files.searches directory = true)
      (held : files.entry? (directory ++ [name]) = some .directory)
      (leads : Leads files (directory ++ [name]) way) :
      Leads files directory (name :: way)

section

variable {files : FileSystem} {location directory way place : Location} {name : String}

@[simp]
theorem comesTo_nil : files.comesTo directory [] = false :=
  rfl

@[simp]
theorem comesTo_singleton : files.comesTo directory [name] = files.lists directory := by
  simp [comesTo]

theorem comesTo_cons (below : way ≠ []) :
    files.comesTo directory (name :: way) =
      (files.lists directory && files.searches directory &&
        files.comesTo (directory ++ [name]) way) := by
  rw [comesTo, List.isEmpty_eq_false_iff.mpr below, Bool.false_or, Bool.and_assoc]

theorem Leads.ne_nil (leads : files.Leads directory way) : way ≠ [] := by
  cases leads <;> exact List.cons_ne_nil _ _

theorem Leads.exists_file (leads : files.Leads directory way) :
    ∃ content, files.entry? (directory ++ way) = some (.file content) := by
  induction leads with
  | file listed held => exact ⟨_, held⟩
  | directory listed searched held leads ih => simpa using ih

theorem Leads.comesTo (leads : files.Leads directory way) : files.comesTo directory way = true := by
  induction leads with
  | file listed held => rwa [comesTo_singleton]
  | directory listed searched held leads ih =>
      rw [comesTo_cons leads.ne_nil, listed, searched, ih]
      rfl

theorem Leads.isName (wellFormed : files.WellFormed) (leads : files.Leads directory way) :
    ∀ name ∈ way, IsName name := by
  induction leads with
  | file listed held => simpa using wellFormed.isName_of_held held
  | directory listed searched held leads ih =>
      intro name among
      rcases List.mem_cons.mp among with rfl | among
      · exact wellFormed.isName_of_held held
      · exact ih name among

/-- Above what a location of a tree holds there are directories only. -/
theorem WellFormed.directory_of_append (wellFormed : files.WellFormed) {entry : Entry}
    (below : way ≠ []) (held : files.entry? (directory ++ way) = some entry) :
    files.entry? directory = some .directory := by
  induction way using List.reverseRecOn generalizing entry with
  | nil => exact absurd rfl below
  | append_singleton front name ih =>
      rw [← List.append_assoc] at held
      have above := wellFormed.directory_of_held held
      by_cases first : front = []
      · simpa [first] using above
      · exact ih first above

/-- **In a tree, the ways to files are those that a walk comes along and that end at a file.** -/
theorem WellFormed.leads_iff (wellFormed : files.WellFormed) :
    files.Leads directory way ↔
      files.comesTo directory way = true ∧
        ∃ content, files.entry? (directory ++ way) = some (.file content) := by
  refine ⟨fun leads => ⟨leads.comesTo, leads.exists_file⟩, ?_⟩
  rintro ⟨comes, content, held⟩
  induction way generalizing directory with
  | nil => exact nomatch comes
  | cons name rest ih =>
      by_cases last : rest = []
      · subst last
        exact .file (comesTo_singleton ▸ comes) held
      · rw [comesTo_cons last, Bool.and_eq_true, Bool.and_eq_true] at comes
        obtain ⟨⟨listed, searched⟩, onwards⟩ := comes
        rw [List.append_cons] at held
        exact .directory listed searched (wellFormed.directory_of_append last held)
          (ih onwards held)

end

/-! ## What paths denote in a tree -/

/-- A location holds a file or a directory. -/
def IsPlace (files : FileSystem) (location : Location) : Prop :=
  files.entry? location = some .directory ∨
    ∃ content, files.entry? location = some (.file content)

section

variable {files : FileSystem} {follow : Location → List String → Except Obstacle Location}
  {location place way : Location} {name : String} {names rest : List String} {path : Path}

/-- What the first step of a walk that arrives can be: up, along a link, or down. -/
inductive FirstStep (files : FileSystem)
    (follow : Location → List String → Except Obstacle Location) (location : Location)
    (name : String) (rest : List String) (place : Location) : Prop
  | up (isUp : name = "..") (walked : files.walk follow location.dropLast rest = .ok place)
  | link {target : String} (notUp : name ≠ "..") (short : name.utf8ByteSize ≤ nameLimit)
      (held : files.entry? (location ++ [name]) = some (.link target))
      (followed : follow (origin location (Path.ofText target))
        ((Path.ofText target).parts ++ rest) = .ok place)
  | down (notUp : name ≠ "..") (short : name.utf8ByteSize ≤ nameLimit)
      (held : files.IsPlace (location ++ [name]))
      (walked : files.walk follow (location ++ [name]) rest = .ok place)

/-- **A walk arrives exactly when it starts in a directory where names can be looked up and its
first step arrives.** -/
theorem walk_cons_eq_ok_iff :
    files.walk follow location (name :: rest) = .ok place ↔
      files.entry? location = some .directory ∧ files.searches location = true ∧
        FirstStep files follow location name rest place := by
  rw [walk]
  constructor
  · intro walked
    split at walked
    next => cases walked
    next inside =>
      split at walked
      next => cases walked
      next searched =>
        refine ⟨by simpa using inside, by simpa using searched, ?_⟩
        split at walked
        next isUp => exact .up (by simpa using isUp) walked
        next notUp =>
          have notUp : name ≠ ".." := by simpa using notUp
          split at walked
          next => cases walked
          next short =>
            have short : name.utf8ByteSize ≤ nameLimit := Nat.le_of_not_lt short
            cases held : files.entry? (location ++ [name]) with
            | none => simp [held] at walked
            | some entry =>
                rw [held] at walked
                cases entry with
                | file content => exact .down notUp short (.inr ⟨content, held⟩) walked
                | directory => exact .down notUp short (.inl held) walked
                | link target => exact .link notUp short held walked
  · rintro ⟨inside, searched, step⟩
    cases step with
    | up isUp walked => simp [inside, searched, isUp, walked]
    | link notUp short held followed =>
        simp [inside, searched, notUp, Nat.not_lt.mpr short, held, followed]
    | down notUp short held walked =>
        rcases held with held | ⟨content, held⟩ <;>
          simp [inside, searched, notUp, Nat.not_lt.mpr short, held, walked]

/-- Where a path starts that is met at a place is a place. -/
theorem IsPlace.origin (start : files.IsPlace location) (path : Path) :
    files.IsPlace (FileSystem.origin location path) := by
  unfold FileSystem.origin
  split
  · exact start
  · exact .inl rfl

/-- A walk from a place ends at a place. -/
theorem WellFormed.isPlace_of_walk (wellFormed : files.WellFormed)
    (followed : ∀ location names place, files.IsPlace location →
      follow location names = .ok place → files.IsPlace place)
    (start : files.IsPlace location) (walked : files.walk follow location names = .ok place) :
    files.IsPlace place := by
  induction names generalizing location with
  | nil =>
      rw [walk] at walked
      exact Except.ok.inj walked ▸ start
  | cons name rest ih =>
      obtain ⟨inside, _, step⟩ := walk_cons_eq_ok_iff.mp walked
      cases step with
      | up isUp walked =>
          refine ih (.inl ?_) walked
          by_cases top : location = []
          · rw [top]
            rfl
          · exact wellFormed.parent _ (mem_of_held top inside)
      | link notUp short held arrives => exact followed _ _ _ (start.origin _) arrives
      | down notUp short held walked => exact ih held walked

theorem WellFormed.isPlace_of_resolve (wellFormed : files.WellFormed) {links : Nat}
    (start : files.IsPlace location) (resolved : files.resolve links location names = .ok place) :
    files.IsPlace place := by
  induction links generalizing location names place with
  | zero =>
      refine wellFormed.isPlace_of_walk ?_ start resolved
      exact fun _ _ _ _ tooMany => nomatch tooMany
  | succ links ih =>
      exact wellFormed.isPlace_of_walk (fun _ _ _ start followed => ih start followed) start
        resolved

/-- A path can be looked up as far as its text goes and where it starts. -/
structure IsLookedUp (files : FileSystem) (path : Path) : Prop where
  nullFree : ∀ part ∈ path.parts, '\x00' ∉ part.toList
  short : path.text.utf8ByteSize ≤ pathLimit
  started : path.anchor = "" → files.searches files.workingDirectory = true

theorem locate_eq_ok_iff :
    files.locate path = .ok location ↔
      files.IsLookedUp path ∧
        files.resolve linkLimit (origin files.workingDirectory path) path.parts =
          .ok location := by
  have nulls : (path.parts.any fun part => part.toList.contains '\x00') = true ↔
      ¬ ∀ part ∈ path.parts, '\x00' ∉ part.toList := by
    simp
  have closed : (path.anchor == "" && !files.searches files.workingDirectory) = true ↔
      ¬ (path.anchor = "" → files.searches files.workingDirectory = true) := by
    simp
  rw [locate]
  constructor
  · intro located
    split at located
    next => cases located
    next nullFree =>
      split at located
      next => cases located
      next short =>
        split at located
        next => cases located
        next started =>
          exact ⟨⟨not_not.mp (mt nulls.mpr nullFree), Nat.le_of_not_lt short,
            not_not.mp (mt closed.mpr started)⟩, located⟩
  · rintro ⟨looked, resolved⟩
    rw [if_neg (mt nulls.mp (not_not.mpr looked.nullFree)), if_neg (Nat.not_lt.mpr looked.short),
      if_neg (mt closed.mp (not_not.mpr looked.started)), resolved]

/-- **A path leads to a file or to a directory.** -/
theorem Denotes.isPlace (wellFormed : files.WellFormed) {text : String}
    (denotes : files.Denotes text location) : files.IsPlace location := by
  obtain ⟨_, resolved⟩ := locate_eq_ok_iff.mp denotes
  have start : files.IsPlace files.workingDirectory := .inl wellFormed.started
  exact wellFormed.isPlace_of_resolve (start.origin _) resolved

/-! ## Going on along a way -/

/-- A way through directories is walked name by name, and no link is met. -/
theorem Leads.walk_eq (wellFormed : files.WellFormed) (leads : files.Leads location way)
    (searched : files.searches (location ++ way.dropLast) = true) :
    files.walk follow location way = .ok (location ++ way) := by
  induction leads with
  | file listed held =>
      have isName := wellFormed.isName_of_held held
      refine walk_cons_eq_ok_iff.mpr
        ⟨wellFormed.directory_of_held held, by simpa using searched, ?_⟩
      exact .down isName.notUp isName.short (.inr ⟨_, held⟩) (by rw [walk])
  | directory listed above held leads ih =>
      have isName := wellFormed.isName_of_held held
      rw [List.dropLast_cons_of_ne_nil leads.ne_nil, List.append_cons] at searched
      refine walk_cons_eq_ok_iff.mpr ⟨wellFormed.directory_of_held held, above, ?_⟩
      exact .down isName.notUp isName.short (.inl held)
        (by rw [ih searched, List.append_assoc]; rfl)

theorem Leads.walk_append (wellFormed : files.WellFormed) (leads : files.Leads place way)
    (searched : files.searches (place ++ way.dropLast) = true)
    (followed : ∀ location names, follow location names = .ok place →
      follow location (names ++ way) = .ok (place ++ way))
    (walked : files.walk follow location names = .ok place) :
    files.walk follow location (names ++ way) = .ok (place ++ way) := by
  induction names generalizing location with
  | nil =>
      rw [walk] at walked
      rw [Except.ok.inj walked]
      exact leads.walk_eq wellFormed searched
  | cons name rest ih =>
      obtain ⟨inside, looked, step⟩ := walk_cons_eq_ok_iff.mp walked
      rw [List.cons_append]
      refine walk_cons_eq_ok_iff.mpr ⟨inside, looked, ?_⟩
      cases step with
      | up isUp walked => exact .up isUp (ih walked)
      | link notUp short held arrives =>
          refine .link notUp short held ?_
          rw [← List.append_assoc]
          exact followed _ _ arrives
      | down notUp short held walked => exact .down notUp short held (ih walked)

theorem Leads.resolve_append (wellFormed : files.WellFormed) (leads : files.Leads place way)
    (searched : files.searches (place ++ way.dropLast) = true) {links : Nat}
    (resolved : files.resolve links location names = .ok place) :
    files.resolve links location (names ++ way) = .ok (place ++ way) := by
  induction links generalizing location names with
  | zero =>
      exact leads.walk_append wellFormed searched (fun _ _ tooMany => nomatch tooMany) resolved
  | succ links ih =>
      exact leads.walk_append wellFormed searched (fun _ _ followed => ih followed) resolved

theorem refusal?_eq_none_iff :
    files.refusal? path place way = none ↔
      (path.below way).text.utf8ByteSize ≤ pathLimit ∧
        files.searches (place ++ way.dropLast) = true := by
  unfold refusal?
  by_cases long : pathLimit < (path.below way).text.utf8ByteSize
  · simp [long]
  · by_cases searched : files.searches (place ++ way.dropLast) = true
    · simp [long, searched, Nat.le_of_not_lt long]
    · simp [long, searched]

/-- **A path that is extended by a way through directories leads on along this way**, unless the
extended path is refused. -/
theorem Leads.locate_below (wellFormed : files.WellFormed) (leads : files.Leads place way)
    (located : files.locate path = .ok place) (allowed : files.refusal? path place way = none) :
    files.locate (path.below way) = .ok (place ++ way) := by
  obtain ⟨looked, resolved⟩ := locate_eq_ok_iff.mp located
  obtain ⟨short, searched⟩ := refusal?_eq_none_iff.mp allowed
  refine locate_eq_ok_iff.mpr ⟨⟨?_, short, looked.started⟩, ?_⟩
  · intro part among
    rcases List.mem_append.mp among with own | further
    · exact looked.nullFree part own
    · exact (leads.isName wellFormed part further).nullFree
  · exact leads.resolve_append wellFormed searched resolved

end

/-! ## What a walk comes to -/

section

variable {files : FileSystem} {directory way : Location} {entry : Entry}

/-- The way from a directory to what is stored, if a walk comes to it. -/
def wayTo (files : FileSystem) (directory : Location) (stored : Location × Entry) :
    Option Location :=
  let way := stored.1.drop directory.length
  if directory.isPrefixOf stored.1 && files.comesTo directory way then some way else none

theorem wayTo_eq_some_iff {stored : Location × Entry} :
    files.wayTo directory stored = some way ↔
      stored.1 = directory ++ way ∧ files.comesTo directory way = true := by
  simp only [wayTo, Option.ite_none_right_eq_some, Bool.and_eq_true, List.isPrefixOf_iff_prefix,
    Option.some.injEq]
  constructor
  · rintro ⟨⟨starts, comes⟩, rfl⟩
    exact ⟨(List.prefix_iff_eq_append.mp starts).symm, comes⟩
  · rintro ⟨whole, comes⟩
    have rest : stored.1.drop directory.length = way := by rw [whole, List.drop_left]
    rw [rest]
    exact ⟨⟨whole ▸ List.prefix_append _ _, comes⟩, rfl⟩

theorem met_eq : files.met directory = files.entries.filterMap (files.wayTo directory) :=
  rfl

theorem ne_nil_of_comesTo (comes : files.comesTo directory way = true) : way ≠ [] := by
  rintro rfl
  cases comes

theorem WellFormed.mem_met_iff (wellFormed : files.WellFormed) :
    way ∈ files.met directory ↔
      files.comesTo directory way = true ∧
        ∃ entry, files.entry? (directory ++ way) = some entry := by
  rw [met_eq, List.mem_filterMap]
  simp only [wayTo_eq_some_iff]
  constructor
  · rintro ⟨⟨location, entry⟩, among, rfl, comes⟩
    have below := List.append_ne_nil_of_right_ne_nil directory (ne_nil_of_comesTo comes)
    exact ⟨comes, entry, (wellFormed.mem_entries_iff below).mp among⟩
  · rintro ⟨comes, entry, held⟩
    have below := List.append_ne_nil_of_right_ne_nil directory (ne_nil_of_comesTo comes)
    exact ⟨_, mem_of_held below held, rfl, comes⟩

theorem WellFormed.nodup_met (wellFormed : files.WellFormed) (directory : Location) :
    (files.met directory).Nodup := by
  rw [met_eq, List.Nodup, List.pairwise_filterMap]
  refine (List.pairwise_map.mp wellFormed.unique).imp fun {first second} apart => ?_
  rintro way found other foundToo rfl
  exact apart ((wayTo_eq_some_iff.mp found).1.trans (wayTo_eq_some_iff.mp foundToo).1.symm)

end

section

variable {files : FileSystem} {path : Path} {directory : Location}

/-- A walk of a directory fails exactly when it comes to something that it cannot look up. -/
theorem walkFailure?_eq_none_iff :
    files.walkFailure? path directory = none ↔
      ∀ way ∈ files.met directory, files.refusal? path directory way = none := by
  rw [walkFailure?]
  set refused := (files.met directory).filter fun way =>
    (files.refusal? path directory way).isSome
  cases sorted : refused.mergeSort Path.precedes with
  | nil =>
      refine iff_of_true rfl fun way among => ?_
      by_contra isRefused
      have listed : way ∈ refused :=
        List.mem_filter.mpr ⟨among, Option.isSome_iff_ne_none.mpr isRefused⟩
      rw [← List.mem_mergeSort, sorted] at listed
      cases listed
  | cons first rest =>
      -- The first of those that are refused is the reason.
      have listed : first ∈ refused := by
        rw [← List.mem_mergeSort, sorted]
        exact .head _
      obtain ⟨among, isSome⟩ := List.mem_filter.mp listed
      have isRefused := Option.isSome_iff_ne_none.mp isSome
      exact iff_of_false isRefused fun allowed => isRefused (allowed first among)

/-- A path leads to a file, or to a directory where a walk can look up all that it comes to: no path
becomes too long on the way, and names can be looked up wherever they are listed. -/
inductive Walkable (files : FileSystem) (text : String) : Prop
  | file {location : Location} {content : Bytes} (denotes : files.Denotes text location)
      (held : files.entry? location = some (.file content))
  | directory {location : Location} (denotes : files.Denotes text location)
      (allowed : ∀ way ∈ files.met location,
        files.refusal? (Path.ofText text) location way = none)

theorem Walkable.denotes {text : String} (walkable : files.Walkable text) :
    ∃ location, files.Denotes text location := by
  rcases walkable with ⟨denotes, _⟩ | ⟨denotes, _⟩ <;> exact ⟨_, denotes⟩

/-- Where no directory is closed to looking up names, a path that leads somewhere can be walked as
long as no path becomes too long. -/
theorem Denotes.walkable {text : String} {location : Location}
    (denotes : files.Denotes text location) (unclosed : files.unsearchable = [])
    (short : ∀ way ∈ files.met location,
      ((Path.ofText text).below way).text.utf8ByteSize ≤ pathLimit) :
    files.Walkable text := by
  refine .directory denotes fun way among => refusal?_eq_none_iff.mpr ⟨short way among, ?_⟩
  rw [searches, unclosed]
  rfl

end

/-! ## Walks of a directory -/

section

variable (files : FileSystem) (directory : Location)

/-- The names that are listed in a directory, in code point order. -/
def namesIn : List String :=
  if files.lists directory then
    ((files.entries.map Prod.fst).filterMap fun location =>
      if location.dropLast = directory then location.getLast? else none).mergeSort
  else []

/-- The most names on the way to an entry. -/
def height : Nat :=
  (files.entries.map fun stored => stored.1.length).foldr max 0

variable {files directory}

theorem name_eq_some_iff {location : Location} {name : String} :
    (if location.dropLast = directory then location.getLast? else none) = some name ↔
      location = directory ++ [name] := by
  rw [Option.ite_none_right_eq_some]
  constructor
  · rintro ⟨rfl, last⟩
    obtain ⟨front, rfl⟩ := List.getLast?_eq_some_iff.mp last
    rw [List.dropLast_concat]
  · rintro rfl
    exact ⟨List.dropLast_concat, List.getLast?_concat⟩

theorem mem_namesIn {name : String} :
    name ∈ files.namesIn directory ↔
      files.lists directory = true ∧ ∃ entry, (directory ++ [name], entry) ∈ files.entries := by
  rw [namesIn]
  split
  next listed =>
    simp only [List.mem_mergeSort, List.mem_filterMap, name_eq_some_iff, List.mem_map, Prod.exists,
      exists_and_right, exists_eq_right, listed, true_and]
  next unlisted => simp [unlisted]

theorem WellFormed.pairwise_namesIn (wellFormed : files.WellFormed) (directory : Location) :
    (files.namesIn directory).Pairwise (· < ·) := by
  rw [namesIn]
  split
  next =>
    have nodup : ((files.entries.map Prod.fst).filterMap fun location =>
        if location.dropLast = directory then location.getLast? else none).Nodup := by
      refine wellFormed.unique.filterMap fun location other name named namedToo => ?_
      rw [name_eq_some_iff.mp named, name_eq_some_iff.mp namedToo]
    have sorted := List.pairwise_mergeSort' (· ≤ ·) ((files.entries.map Prod.fst).filterMap
      fun location => if location.dropLast = directory then location.getLast? else none)
    have apart := (List.mergeSort_perm _ (· ≤ · : String → String → Bool)).nodup_iff.mpr nodup
    exact (sorted.and apart).imp fun ⟨ordered, apart⟩ => lt_of_le_of_ne ordered apart
  next => exact .nil

theorem length_le_height {location : Location} {entry : Entry}
    (among : (location, entry) ∈ files.entries) : location.length ≤ files.height := by
  unfold height
  generalize files.entries = entries at among ⊢
  induction entries with
  | nil => exact absurd among List.not_mem_nil
  | cons first rest ih =>
      rw [List.map_cons, List.foldr_cons]
      rcases List.mem_cons.mp among with rfl | among
      · exact Nat.le_max_left _ _
      · exact Nat.le_trans (ih among) (Nat.le_max_right _ _)

theorem height_sub_lt {name : String} (listed : name ∈ files.namesIn directory) :
    files.height - (directory ++ [name]).length < files.height - directory.length := by
  obtain ⟨_, entry, among⟩ := mem_namesIn.mp listed
  have bound := length_le_height among
  rw [List.length_append, List.length_singleton] at bound ⊢
  omega

variable (files directory)

/-- The ways to the files below a directory, as a walk meets them: it takes the names that are
listed in the directory in order and goes into each directory where it meets it, if it can look
it up. Links are passed by. -/
def filesBelow (directory : Location) : List Location :=
  (files.namesIn directory).attach.flatMap fun ⟨name, _⟩ =>
    match files.entry? (directory ++ [name]) with
    | some (.file _) => [[name]]
    | some .directory =>
        if files.searches directory then
          (filesBelow (directory ++ [name])).map (name :: ·)
        else []
    | _ => []
  termination_by files.height - directory.length
  decreasing_by exact height_sub_lt ‹_›

/-- The ways that a walk meets at a name. -/
def filesAtName (name : String) : List Location :=
  match files.entry? (directory ++ [name]) with
  | some (.file _) => [[name]]
  | some .directory =>
      if files.searches directory then
        (files.filesBelow (directory ++ [name])).map (name :: ·)
      else []
  | _ => []

theorem filesBelow_eq :
    files.filesBelow directory =
      (files.namesIn directory).flatMap (files.filesAtName directory) := by
  rw [filesBelow, @List.flatMap_subtype _ _ _ _ _ (files.filesAtName directory) fun _ _ => rfl,
    List.unattach_attach]

variable {files directory}

theorem mem_filesAtName_iff {name : String} {way : Location} :
    way ∈ files.filesAtName directory name ↔
      (∃ content, files.entry? (directory ++ [name]) = some (.file content) ∧ way = [name]) ∨
      files.searches directory = true ∧ files.entry? (directory ++ [name]) = some .directory ∧
        ∃ rest ∈ files.filesBelow (directory ++ [name]), way = name :: rest := by
  rw [filesAtName]
  cases files.entry? (directory ++ [name]) with
  | none => simp
  | some entry =>
      cases entry with
      | file content => simp
      | directory => cases files.searches directory <;> simp [eq_comm]
      | link target => simp

theorem exists_cons_of_mem_filesAtName {name : String} {way : Location}
    (met : way ∈ files.filesAtName directory name) : ∃ rest, way = name :: rest := by
  rcases mem_filesAtName_iff.mp met with ⟨_, _, rfl⟩ | ⟨_, _, rest, _, rfl⟩
  · exact ⟨[], rfl⟩
  · exact ⟨rest, rfl⟩

/-- **A walk meets the ways through directories to files.** -/
theorem mem_filesBelow {way : Location} :
    way ∈ files.filesBelow directory ↔ files.Leads directory way := by
  induction directory using filesBelow.induct files generalizing way with
  | case1 directory ih =>
      rw [filesBelow_eq, List.mem_flatMap]
      simp only [mem_filesAtName_iff]
      constructor
      · rintro ⟨name, named, ⟨content, held, rfl⟩ | ⟨searched, held, rest, met, rfl⟩⟩
        · exact .file (mem_namesIn.mp named).1 held
        · exact .directory (mem_namesIn.mp named).1 searched held ((ih name named).mp met)
      · intro leads
        cases leads with
        | file listed held =>
            have named := mem_namesIn.mpr ⟨listed, _, mem_of_held (by simp) held⟩
            exact ⟨_, named, .inl ⟨_, held, rfl⟩⟩
        | directory listed searched held leads =>
            have named := mem_namesIn.mpr ⟨listed, _, mem_of_held (by simp) held⟩
            exact ⟨_, named, .inr ⟨searched, held, _, (ih _ named).mpr leads, rfl⟩⟩

/-- **A walk meets the ways in their order.** -/
theorem WellFormed.pairwise_filesBelow (wellFormed : files.WellFormed) (directory : Location) :
    (files.filesBelow directory).Pairwise (· < ·) := by
  induction directory using filesBelow.induct files with
  | case1 directory ih =>
      rw [filesBelow_eq, List.pairwise_flatMap]
      constructor
      · intro name listed
        rw [filesAtName]
        split
        next => exact List.pairwise_singleton _ _
        next =>
          split
          next =>
            rw [List.pairwise_map]
            exact (ih name listed).imp fun before => .cons before
          next => exact .nil
        next => exact .nil
      · refine (wellFormed.pairwise_namesIn directory).imp fun {first second} before => ?_
        intro way met other metToo
        obtain ⟨rest, rfl⟩ := exists_cons_of_mem_filesAtName met
        obtain ⟨others, rfl⟩ := exists_cons_of_mem_filesAtName metToo
        exact .rel before

end

end FileSystem

end Unqualify
