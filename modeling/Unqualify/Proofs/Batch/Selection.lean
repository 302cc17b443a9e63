import Unqualify.Proofs.Batch.Found
import Unqualify.Proofs.Settings.Precedence

/-!
# Which files a run picks up under its settings

A run is made from the lists of its settings, and an empty list stands for the standard one. So a
run goes by its settings as long as these list something. Settings with no suffixes, which ask for
no file at all, get the files with a standard suffix; and settings that leave no name out lose the
files below the standard names. The list is empty when the text that decides about it holds nothing
but separators, and `selects_by_settings_iff` says for which calls and trees this makes a
difference.
-/

set_option autoImplicit false

namespace Unqualify

namespace Batch

/-! ## Lists of a run -/

theorem orStandard_of_ne_nil {given : List String} (some : given ≠ []) (standard : List String) :
    orStandard given standard = given := by
  rw [orStandard, List.isEmpty_eq_false_iff.mpr some]
  rfl

/-- A way ends in a name with one of the suffixes. -/
def EndsIn (suffixes : List String) (way : Location) : Prop :=
  ∃ front name suffix, way = front ++ [name] ∧ Path.HasSuffix name suffix ∧ suffix ∈ suffixes

/-- A way passes or ends in one of the names. -/
def Passes (names : List String) (way : Location) : Prop :=
  ∃ name ∈ way, name ∈ names

theorem not_endsIn_nil (way : Location) : ¬ EndsIn [] way := by
  rintro ⟨_, _, _, _, _, among⟩
  exact nomatch among

theorem not_passes_nil (way : Location) : ¬ Passes [] way := by
  rintro ⟨_, _, among⟩
  exact nomatch among

theorem wants_iff {batch : Batch} {way : Location} :
    batch.Wants way ↔ EndsIn batch.extensions way ∧ ¬ Passes batch.excluded way := by
  constructor
  · rintro ⟨keeps, ends⟩
    exact ⟨ends, fun ⟨name, onWay, excluded⟩ => keeps name onWay excluded⟩
  · rintro ⟨ends, keeps⟩
    exact ⟨fun name onWay excluded => keeps ⟨name, onWay, excluded⟩, ends⟩

/-- Below a directory a run selects files by the lists of settings: it picks up only files with a
listed suffix, and of these it leaves out only those with a listed name on their way. -/
structure SelectsBy (batch : Batch) (settings : Settings) (files : FileSystem)
    (directory : Location) : Prop where
  pickedUp : ∀ way ∈ batch.waysBelow files directory, EndsIn settings.extensions way
  leftOut : ∀ way, files.Leads directory way → EndsIn settings.extensions way →
    way ∉ batch.waysBelow files directory → Passes settings.excluded way

end Batch

/-! ## Settings with empty lists -/

namespace Settings

/-- The settings of a call that says nothing about them. -/
def standard : Settings := {}

variable {environment : Environment} {arguments : Arguments} {held settings : Settings}

/-- The text that decides about the suffixes is set and lists none. -/
def ListsNoSuffix (environment : Environment) (arguments : Arguments) : Prop :=
  ∃ text, (suffixText? arguments).or (environment.get? "EXTENSIONS") = some text ∧
    Text.OnlySeparators text

/-- No flag gives a name, and the variable that takes the place of the standard names lists none. -/
def ListsNoName (environment : Environment) (arguments : Arguments) : Prop :=
  arguments.ignored = [] ∧
    ∃ text, environment.get? "EXCLUDE_PATTERNS" = some text ∧ Text.OnlySeparators text

theorem dottedAll_commaList_eq_nil_iff {text : String} :
    dottedAll (Text.commaList text) = [] ↔ Text.OnlySeparators text := by
  rw [dottedAll_of_ne_empty fun _ => Text.ne_empty_of_mem_commaList, List.map_eq_nil_iff,
    Text.commaList_eq_nil_iff]

theorem exists_overlays_of_resolve
    (resolved : Settings.resolve environment arguments = .ok settings) :
    ∃ held, Settings.load environment = .ok held ∧ Overlays arguments held settings := by
  obtain ⟨held, loaded, overlaid⟩ := bind_eq_ok_iff.mp resolved
  exact ⟨held, loaded, (overlay_eq_ok_iff.mp (mapError_eq_ok_iff.mp overlaid)).1⟩

theorem extensions_eq_nil_iff (resolved : Settings.resolve environment arguments = .ok settings) :
    settings.extensions = [] ↔ ListsNoSuffix environment arguments := by
  obtain ⟨held, loaded, overlays⟩ := exists_overlays_of_resolve resolved
  rw [← suffixesOver_eq_iff.mpr overlays.extensions, suffixesOver, ListsNoSuffix]
  cases suffixText? arguments with
  | some text => simp [dottedAll_commaList_eq_nil_iff]
  | none =>
      have holds := load_eq_ok_iff.mp loaded .extensions
      rw [Field.variable] at holds
      cases found : environment.get? "EXTENSIONS" with
      | none =>
          rw [found] at holds
          have standard : held.extensions = ({} : Settings).extensions := holds
          simp [standard]
      | some text =>
          rw [found] at holds
          rw [← listsSuffixes_iff.mp holds]
          simp [dottedAll_commaList_eq_nil_iff]

theorem excluded_eq_nil_iff (resolved : Settings.resolve environment arguments = .ok settings) :
    settings.excluded = [] ↔ ListsNoName environment arguments := by
  obtain ⟨held, loaded, overlays⟩ := exists_overlays_of_resolve resolved
  obtain ⟨names, ignored, excluded⟩ := overlays.excluded
  rw [excluded, ListsNoName, ignored, List.append_eq_nil_iff, List.map_eq_nil_iff, and_comm]
  refine and_congr_right fun _ => ?_
  have holds := load_eq_ok_iff.mp loaded .excluded
  rw [Field.variable] at holds
  cases found : environment.get? "EXCLUDE_PATTERNS" with
  | none =>
      rw [found] at holds
      have standard : held.excluded = ({} : Settings).excluded := holds
      simp [standard]
  | some text =>
      rw [found] at holds
      rw [← Text.listed_iff.mp holds]
      simp [Text.commaList_eq_nil_iff]

end Settings

/-! ## Selection -/

namespace Program

open Batch Settings

variable {environment : Environment} {arguments : Arguments} {settings : Settings}
  {files : FileSystem} {directory way : Location}

theorem extensions_batchOf (listed : settings.extensions ≠ []) :
    (batchOf arguments settings).extensions = settings.extensions :=
  orStandard_of_ne_nil listed _

theorem extensions_batchOf_of_nil (none : settings.extensions = []) :
    (batchOf arguments settings).extensions = Settings.standard.extensions := by
  rw [batchOf, Batch.make, none]
  rfl

theorem excluded_batchOf (listed : settings.excluded ≠ []) :
    (batchOf arguments settings).excluded = settings.excluded :=
  orStandard_of_ne_nil listed _

theorem excluded_batchOf_of_nil (none : settings.excluded = []) :
    (batchOf arguments settings).excluded = Settings.standard.excluded := by
  rw [batchOf, Batch.make, none]
  rfl

/-- Without suffixes of its own a run picks up nothing as long as every file with a standard suffix
is left out. -/
theorem pickedUp_iff (wellFormed : files.WellFormed) :
    (∀ way ∈ (batchOf arguments settings).waysBelow files directory,
        EndsIn settings.extensions way) ↔
      (settings.extensions = [] → ∀ way, files.Leads directory way →
        EndsIn Settings.standard.extensions way →
          Passes (batchOf arguments settings).excluded way) := by
  simp only [mem_waysBelow wellFormed, wants_iff]
  constructor
  · intro pickedUp none way leads ends
    by_contra kept
    rw [← extensions_batchOf_of_nil none] at ends
    have listed := pickedUp way ⟨leads, ends, kept⟩
    rw [none] at listed
    exact not_endsIn_nil way listed
  · rintro standard way ⟨leads, ends, kept⟩
    by_cases none : settings.extensions = []
    · rw [extensions_batchOf_of_nil none] at ends
      exact absurd (standard none way leads ends) kept
    · rwa [extensions_batchOf none] at ends

/-- Without names of its own a run leaves nothing out as long as no file that it picks up has a
standard name on its way. -/
theorem leftOut_iff (wellFormed : files.WellFormed) :
    (∀ way, files.Leads directory way → EndsIn settings.extensions way →
        way ∉ (batchOf arguments settings).waysBelow files directory →
          Passes settings.excluded way) ↔
      (settings.excluded = [] → ∀ way, files.Leads directory way →
        EndsIn settings.extensions way → ¬ Passes Settings.standard.excluded way) := by
  simp only [mem_waysBelow wellFormed, wants_iff]
  constructor
  · intro leftOut none way leads ends passes
    rw [← excluded_batchOf_of_nil none] at passes
    have listed := leftOut way leads ends fun ⟨_, _, kept⟩ => kept passes
    rw [none] at listed
    exact not_passes_nil way listed
  · intro standard way leads ends missed
    -- A file with one of the suffixes shows that there are some, and the run has the same.
    have listed : settings.extensions ≠ [] := by
      intro none
      rw [none] at ends
      exact not_endsIn_nil way ends
    rw [extensions_batchOf listed] at missed
    have passes : Passes (batchOf arguments settings).excluded way := by
      by_contra kept
      exact missed ⟨leads, ends, kept⟩
    by_cases none : settings.excluded = []
    · rw [excluded_batchOf_of_nil none] at passes
      exact absurd passes (standard none way leads ends)
    · rwa [excluded_batchOf none] at passes

/-- **When a run goes by its settings.** It does unless the text that decides about the suffixes
lists none and yet there is a file with a standard suffix that is not left out, or the text that
decides about the names lists none and yet a file with one of the suffixes has a standard name on
its way. -/
theorem selects_by_settings_iff
    (resolved : Settings.resolve environment arguments = .ok settings)
    (wellFormed : files.WellFormed)
    (directory : Location) :
    (batchOf arguments settings).SelectsBy settings files directory ↔
      (ListsNoSuffix environment arguments → ∀ way, files.Leads directory way →
        EndsIn Settings.standard.extensions way →
          Passes (batchOf arguments settings).excluded way) ∧
      (ListsNoName environment arguments → ∀ way, files.Leads directory way →
        EndsIn settings.extensions way → ¬ Passes Settings.standard.excluded way) := by
  rw [← extensions_eq_nil_iff resolved, ← excluded_eq_nil_iff resolved, ← pickedUp_iff wellFormed,
    ← leftOut_iff wellFormed]
  exact ⟨fun selects => ⟨selects.pickedUp, selects.leftOut⟩,
    fun ⟨pickedUp, leftOut⟩ => ⟨pickedUp, leftOut⟩⟩

end Program

/-! ## Samples -/

namespace Sample

/-- An environment with one variable. -/
def setOnly (name value : String) : Environment := fun other =>
  if other = Environment.namePrefix ++ name then some value else none

end Sample

namespace Program

open Batch Settings

theorem selects_by_settings_project :
    Settings.resolve (Sample.setOnly "EXTENSIONS" "tsx") {} = .ok { extensions := [".tsx"] } ∧
      (batchOf {} { extensions := [".tsx"] }).SelectsBy { extensions := [".tsx"] } Sample.project
        ["src"] := by
  have resolved : Settings.resolve (Sample.setOnly "EXTENSIONS" "tsx") {} =
      .ok { extensions := [".tsx"] } := rfl
  refine ⟨resolved, (selects_by_settings_iff resolved Sample.wellFormed_project _).mpr ⟨?_, ?_⟩⟩
  · exact fun none => nomatch (extensions_eq_nil_iff resolved).mpr none
  · exact fun none => nomatch (excluded_eq_nil_iff resolved).mpr none

/-- A separator as the list of suffixes leads to settings without suffixes, and yet a file is picked
up; a separator as the list of names leads to settings without names, and yet a file is left out. -/
theorem separators_stand_for_standard_lists :
    (∃ settings, Settings.resolve (Sample.setOnly "EXTENSIONS" ",") {} = .ok settings ∧
      settings.extensions = [] ∧
      (batchOf {} settings).filesAt Sample.project "src" = .ok ["src/App.tsx"] ∧
      ¬ (batchOf {} settings).SelectsBy settings Sample.project ["src"]) ∧
    (∃ settings, Settings.resolve (Sample.setOnly "EXCLUDE_PATTERNS" ",") {} = .ok settings ∧
      settings.excluded = [] ∧
      (batchOf {} settings).filesAt Sample.project "src" = .ok ["src/App.tsx"] ∧
      ¬ (batchOf {} settings).SelectsBy settings Sample.project ["src"]) := by
  constructor
  · refine ⟨{ extensions := [] }, rfl, rfl, by decide +kernel, fun selects => ?_⟩
    exact not_endsIn_nil _ (selects.pickedUp ["App.tsx"] (by decide +kernel))
  · refine ⟨{ excluded := [] }, rfl, rfl, by decide +kernel, fun selects => ?_⟩
    have leads : Sample.project.Leads ["src"] ["dist", "App.tsx"] :=
      Sample.wellFormed_project.leads_iff.mpr ⟨by decide +kernel, _, rfl⟩
    have ends : EndsIn [".js", ".jsx", ".ts", ".tsx"] ["dist", "App.tsx"] :=
      ⟨["dist"], "App.tsx", ".tsx", rfl, Path.hasSuffix_iff.mpr (by decide +kernel), by decide⟩
    exact not_passes_nil _ (selects.leftOut _ leads ends (by decide +kernel))

end Program

end Unqualify
