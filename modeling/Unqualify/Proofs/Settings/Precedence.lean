import Mathlib.Data.Set.List
import Unqualify.Proofs.Arguments
import Unqualify.Proofs.Settings.Record

/-!
# Flags over the environment

The settings of a call are those of the environment with the flags of the call put over them, field
by field: a field takes the value that its flag gives and keeps its own when the flag is not given
(`overlay_eq_ok_iff`). Names that are left out are added to those there are. What comes out is what
the checks make of the record of the settings with the given values put over it
(`overlay_eq_ofFields`); so nothing is lost or done twice when settings are checked again.

The flags come from arguments that were read, so each of them has a value. Then settings fail to
come about in one case only, when too few workers are asked for (`resolve_precedence`).
-/

set_option autoImplicit false

namespace Unqualify

namespace Settings

/-! ## Fields under flags -/

/-- What a field takes under a flag: the value that is given, and what it holds already if the flag
is not given. Under a flag with no value it takes nothing. -/
inductive Takes {α : Type} (held : α) : Option (Given α) → α → Prop
  | given (value : α) : Takes held (some (.value value)) value
  | kept : Takes held none held

/-- The suffixes under the flag that lists them. A flag that is empty or has no value leaves them as
they are. -/
inductive TakesSuffixes (held : List String) : Option (Given String) → List String → Prop
  | given {text : String} {suffixes : List String} (nonempty : text ≠ "")
      (lists : ListsSuffixes text suffixes) : TakesSuffixes held (some (.value text)) suffixes
  | empty : TakesSuffixes held (some (.value "")) held
  | nothing : TakesSuffixes held (some .nothing) held
  | kept : TakesSuffixes held none held

/-- Settings are other settings with the flags of arguments put over them. -/
structure Overlays (arguments : Arguments) (held settings : Settings) : Prop where
  namespaceName : Takes held.namespaceName arguments.namespaceName settings.namespaceName
  moduleName : Takes held.moduleName arguments.moduleName settings.moduleName
  quote : Takes held.quote (arguments.quote.map (Given.map some)) settings.quote
  semicolons : Takes held.semicolons (arguments.semicolons.map fun wanted => .value (some wanted))
    settings.semicolons
  workers : Takes (held.workers : Int) arguments.workers settings.workers
  extensions : TakesSuffixes held.extensions arguments.extensions settings.extensions
  /-- The names that are given come behind those there are. -/
  excluded : ∃ names, arguments.ignored = names.map Given.value ∧
    settings.excluded = held.excluded ++ names

section

variable {α : Type} {name : String} {wrong : Wrong} {given : Option (Given α)} {held value : α}

theorem field_eq_ok_iff : field name wrong given held = .ok value ↔ Takes held given value := by
  constructor
  · intro success
    match given, success with
    | none, success => exact Except.ok.inj success ▸ .kept
    | some (.value _), success => exact Except.ok.inj success ▸ .given _
  · rintro (_ | _) <;> rfl

theorem exists_takes_iff (held : α) :
    (∃ value, Takes held given value) ↔ given ≠ some .nothing := by
  constructor
  · rintro ⟨_, _ | _⟩ <;> exact nofun
  · intro present
    match given, present with
    | none, _ => exact ⟨_, .kept⟩
    | some (.value value), _ => exact ⟨_, .given value⟩
    | some .nothing, present => exact absurd rfl present

theorem takes_eq_or_iff {given held value : Option Bool} :
    given.or held = value ↔ Takes held (given.map fun wanted => .value (some wanted)) value := by
  constructor
  · rintro rfl
    cases given with
    | none => exact .kept
    | some wanted => exact .given _
  · cases given with
    | none => rintro (_ | _); rfl
    | some wanted => rintro (_ | _); rfl

theorem workersField_eq_ok_iff {given : Option (Given Int)} {held workers : Nat} :
    workersField given held = .ok workers ↔ Takes (held : Int) given workers ∧ 1 ≤ workers := by
  rw [workersField, bind_eq_ok_iff]
  simp only [field_eq_ok_iff]
  constructor
  · rintro ⟨number, takes, checked⟩
    split at checked
    next => exact nomatch checked
    next enough =>
      obtain rfl := Except.ok.inj checked
      have same : ((number.toNat : Nat) : Int) = number := by omega
      rw [same]
      exact ⟨takes, by omega⟩
  · rintro ⟨takes, enough⟩
    refine ⟨_, takes, ?_⟩
    rw [if_neg (by omega)]
    rfl

theorem excludedField_eq_ok_iff {position : Nat} {ignored : List (Given String)}
    {names : List String} :
    excludedField position ignored = .ok names ↔ ignored = names.map Given.value := by
  induction ignored generalizing position names with
  | nil =>
      rw [excludedField, Except.ok.injEq, eq_comm, @eq_comm _ [], List.map_eq_nil_iff]
  | cons given rest ih =>
      simp only [excludedField, Checked.map_eq_ok_iff, Prod.exists, Checked.and_eq_ok_iff, ih]
      constructor
      · rintro ⟨first, others, ⟨read, rfl⟩, rfl⟩
        cases given with
        | value => exact congrArg (· :: _) (congrArg Given.value (Except.ok.inj read))
        | nothing => cases read
      · intro same
        cases names with
        | nil => cases same
        | cons first others =>
            obtain ⟨rfl, rfl⟩ := List.cons.inj same
            exact ⟨first, others, ⟨rfl, rfl⟩, rfl⟩

end

theorem suffixesOver_eq_iff {arguments : Arguments} {held suffixes : List String} :
    suffixesOver arguments held = suffixes ↔
      TakesSuffixes held arguments.extensions suffixes := by
  rw [suffixesOver, suffixText?]
  rcases arguments.extensions with _ | (text | _)
  · constructor
    · rintro rfl
      exact .kept
    · rintro (_ | _)
      rfl
  · by_cases empty : text = ""
    · subst empty
      constructor
      · rintro rfl
        exact .empty
      · rintro (⟨nonempty, _⟩ | _)
        · exact absurd rfl nonempty
        · rfl
    · have found : ((some (Given.value text)).bind Given.value?).filter (· != "") = some text := by
        simp [Given.value?, Option.filter, empty]
      rw [found]
      constructor
      · exact fun same => .given empty (listsSuffixes_iff.mpr same)
      · rintro (⟨_, lists⟩ | _)
        · exact listsSuffixes_iff.mp lists
        · exact absurd rfl empty
  · constructor
    · rintro rfl
      exact .nothing
    · rintro (_ | _)
      rfl

section

variable {arguments : Arguments} {held settings other : Settings}

/-- **Settings under flags, field by field.** -/
theorem overlay_eq_ok_iff :
    held.overlay arguments = .ok settings ↔
      Overlays arguments held settings ∧ 1 ≤ settings.workers := by
  simp only [overlay_eq, Checked.map_eq_ok_iff, Prod.exists, Checked.and_eq_ok_iff, field_eq_ok_iff,
    workersField_eq_ok_iff, excludedField_eq_ok_iff]
  constructor
  · rintro ⟨_, _, _, _, names, ⟨namespaceName, moduleName, quote, ⟨workers, enough⟩, ignored⟩, rfl⟩
    exact ⟨⟨namespaceName, moduleName, quote, takes_eq_or_iff.mp rfl, workers,
      suffixesOver_eq_iff.mp rfl, names, ignored, rfl⟩, enough⟩
  · rintro ⟨overlays, enough⟩
    obtain ⟨names, ignored, excluded⟩ := overlays.excluded
    refine ⟨_, _, _, _, names, ⟨overlays.namespaceName, overlays.moduleName, overlays.quote,
      ⟨overlays.workers, enough⟩, ignored⟩, ?_⟩
    rw [suffixesOver_eq_iff.mpr overlays.extensions, takes_eq_or_iff.mpr overlays.semicolons,
      ← excluded]

end

/-! ## When flags fail -/

section

variable {arguments : Arguments} {held settings other : Settings} {environment : Environment}

/-- Fewer workers than one are asked for. -/
def AsksTooFew (arguments : Arguments) : Prop :=
  ∃ workers, arguments.workers = some (.value workers) ∧ workers < 1

/-- A flag that does not do without a value has none. -/
def LacksValue (arguments : Arguments) : Prop :=
  arguments.namespaceName = some .nothing ∨ arguments.moduleName = some .nothing ∨
    arguments.quote = some .nothing ∨ arguments.workers = some .nothing ∨
    .nothing ∈ arguments.ignored

theorem not_lacksValue (has : arguments.HasValues) : ¬ LacksValue arguments := by
  rintro (lacks | lacks | lacks | lacks | lacks)
  · exact has.namespaceName lacks
  · exact has.moduleName lacks
  · exact has.quote lacks
  · exact has.workers lacks
  · exact has.ignored lacks

theorem exists_names_iff {ignored : List (Given String)} :
    (∃ names : List String, ignored = names.map Given.value) ↔ .nothing ∉ ignored := by
  constructor
  · rintro ⟨names, rfl⟩
    simp
  · intro absent
    have named : ignored ∈ Set.range (List.map Given.value) := by
      rw [Set.range_list_map]
      intro given among
      match given, among with
      | .value name, _ => exact ⟨name, rfl⟩
      | .nothing, among => exact absurd among absent
    obtain ⟨names, same⟩ := named
    exact ⟨names, same.symm⟩

theorem exists_workers_iff {given : Option (Given Int)} {held : Nat} (enough : 1 ≤ held) :
    (∃ workers : Nat, Takes (held : Int) given workers ∧ 1 ≤ workers) ↔
      given ≠ some .nothing ∧ ¬ ∃ number, given = some (.value number) ∧ number < 1 := by
  constructor
  · rintro ⟨workers, takes, many⟩
    refine ⟨(exists_takes_iff _).mp ⟨_, takes⟩, ?_⟩
    rintro ⟨number, rfl, few⟩
    cases takes
    omega
  · rintro ⟨present, notFew⟩
    match given, present with
    | none, _ => exact ⟨held, .kept, enough⟩
    | some .nothing, present => exact absurd rfl present
    | some (.value number), _ =>
        have many : 1 ≤ number := Int.not_lt.mp fun few => notFew ⟨number, rfl, few⟩
        obtain ⟨workers, rfl⟩ := Int.eq_ofNat_of_zero_le (by omega : 0 ≤ number)
        exact ⟨workers, .given _, by omega⟩

/-- Flags can be put over settings unless too few workers are asked for or a value is lacking. -/
theorem exists_overlays_iff (enough : 1 ≤ held.workers) :
    (∃ settings : Settings, Overlays arguments held settings ∧ 1 ≤ settings.workers) ↔
      ¬ AsksTooFew arguments ∧ ¬ LacksValue arguments := by
  have quoted : arguments.quote.map (Given.map some) = some .nothing ↔
      arguments.quote = some .nothing := by
    -- A field of settings may be without quotes, so its flag is one over an optional value.
    match arguments.quote with
    | none => exact iff_of_false nofun nofun
    | some (.value _) => exact iff_of_false nofun nofun
    | some .nothing => exact iff_of_true rfl rfl
  rw [LacksValue, ← quoted]
  simp only [not_or]
  constructor
  · rintro ⟨settings, overlays, many⟩
    obtain ⟨present, notFew⟩ := (exists_workers_iff enough).mp ⟨_, overlays.workers, many⟩
    obtain ⟨names, ignored, _⟩ := overlays.excluded
    exact ⟨notFew, (exists_takes_iff _).mp ⟨_, overlays.namespaceName⟩,
      (exists_takes_iff _).mp ⟨_, overlays.moduleName⟩, (exists_takes_iff _).mp ⟨_, overlays.quote⟩,
      present, exists_names_iff.mp ⟨names, ignored⟩⟩
  · rintro ⟨notFew, forNamespace, forModule, forQuote, forWorkers, forIgnored⟩
    obtain ⟨namespaceName, takesNamespace⟩ := (exists_takes_iff held.namespaceName).mpr forNamespace
    obtain ⟨moduleName, takesModule⟩ := (exists_takes_iff held.moduleName).mpr forModule
    obtain ⟨quote, takesQuote⟩ := (exists_takes_iff held.quote).mpr forQuote
    obtain ⟨workers, takesWorkers, many⟩ := (exists_workers_iff enough).mpr ⟨forWorkers, notFew⟩
    obtain ⟨names, ignored⟩ := exists_names_iff.mpr forIgnored
    exact ⟨⟨⟨namespaceName, moduleName, quote, _⟩, workers, _, _⟩,
      ⟨takesNamespace, takesModule, takesQuote, takes_eq_or_iff.mp rfl, takesWorkers,
        suffixesOver_eq_iff.mp rfl, names, ignored, rfl⟩, many⟩

theorem Overlays.dotted (overlays : Overlays arguments held settings) (valid : held.Valid) :
    ∀ suffix ∈ settings.extensions, suffix.toList.head? = some '.' := by
  intro suffix among
  rw [← suffixesOver_eq_iff.mpr overlays.extensions, suffixesOver] at among
  split at among
  · exact head?_of_mem_dottedAll among
  · exact valid.dotted suffix among

/-! ## What flags hide -/

/-- The flag of a field takes the place of what the field holds. -/
def Replaces (arguments : Arguments) : Field → Prop
  | .namespaceName => arguments.namespaceName ≠ none
  | .moduleName => arguments.moduleName ≠ none
  | .quote => arguments.quote ≠ none
  | .semicolons => arguments.semicolons ≠ none
  | .workers => arguments.workers ≠ none
  | .extensions => ∃ text, arguments.extensions = some (.value text) ∧ text ≠ ""
  | .excluded => False

theorem suffixText?_eq_some_iff {text : String} :
    suffixText? arguments = some text ↔ arguments.extensions = some (.value text) ∧ text ≠ "" := by
  rw [suffixText?, Option.filter_eq_some_iff, Option.bind_eq_some_iff]
  refine and_congr ⟨?_, fun given => ⟨_, given, rfl⟩⟩ bne_iff_ne
  rintro ⟨given, found, value⟩
  match given, value with
  | .value _, rfl => exact found

theorem field_congr {α : Type} {name : String} {wrong : Wrong} {given : Option (Given α)}
    {held other : α} (same : given = none → held = other) :
    field name wrong given held = field name wrong given other := by
  match given, same with
  | none, same => rw [same rfl]
  | some (.value _), _ => rfl
  | some .nothing, _ => rfl

/-- Flags give the same over settings that agree on every field that no flag replaces. -/
theorem overlay_congr
    (agree : ∀ field : Field, ¬ Replaces arguments field → field.Agree held other) :
    held.overlay arguments = other.overlay arguments := by
  have forNamespace : arguments.namespaceName = none → held.namespaceName = other.namespaceName :=
    fun unset => agree .namespaceName fun given => given unset
  have forModule : arguments.moduleName = none → held.moduleName = other.moduleName :=
    fun unset => agree .moduleName fun given => given unset
  have forQuote : arguments.quote.map (Given.map some) = none → held.quote = other.quote :=
    fun unset => agree .quote fun given => given (Option.map_eq_none_iff.mp unset)
  have forWorkers : arguments.workers = none → (held.workers : Int) = other.workers :=
    fun unset => congrArg Nat.cast (agree .workers fun given => given unset)
  have forSemicolons : arguments.semicolons.or held.semicolons =
      arguments.semicolons.or other.semicolons := by
    cases unset : arguments.semicolons with
    | none => exact agree .semicolons fun given => given unset
    | some => rfl
  have forExtensions : suffixesOver arguments held.extensions =
      suffixesOver arguments other.extensions := by
    rw [suffixesOver, suffixesOver]
    cases unset : suffixText? arguments with
    | none =>
        refine agree .extensions ?_
        rintro ⟨text, given⟩
        rw [suffixText?_eq_some_iff.mpr given] at unset
        cases unset
    | some => rfl
  -- No flag replaces the names, so the positions of those that are added agree as well.
  have forExcluded : held.excluded = other.excluded := agree .excluded id
  rw [overlay_eq, overlay_eq, field_congr forNamespace, field_congr forModule, field_congr forQuote,
    workersField, field_congr forWorkers, forSemicolons, forExtensions, forExcluded]
  rfl

/-! ## The settings of a call -/

/-- No flag for settings is given. -/
def Unflagged (arguments : Arguments) : Prop :=
  arguments = { arguments with
    namespaceName := none, moduleName := none, quote := none, semicolons := none, workers := none
    extensions := none, ignored := [] }

theorem Overlays.of_unflagged (unflagged : Unflagged arguments) (held : Settings) :
    Overlays arguments held held := by
  rw [unflagged]
  exact ⟨.kept, .kept, .kept, .kept, .kept, .kept, [], rfl, (List.append_nil _).symm⟩

/-- Settings that were checked stay as they are when they are checked again. -/
theorem ofFields_record (valid : held.Valid) : Settings.ofFields held.record = .ok held := by
  have same : held.overlay {} = Settings.ofFields held.record := overlay_eq_ofFields valid.dotted {}
  have unflagged : Unflagged {} := rfl
  rw [← same, overlay_eq_ok_iff]
  exact ⟨.of_unflagged unflagged held, valid.workers⟩

theorem resolve_eq (loaded : Settings.load environment = .ok held) (arguments : Arguments) :
    Settings.resolve environment arguments = (held.overlay arguments).mapError .refused := by
  rw [Settings.resolve, loaded]
  rfl

/-- What the settings of a call are when the environment gives settings. -/
structure Precedence (environment : Environment) (arguments : Arguments)
    (held : Settings) : Prop where
  /-- There are none exactly when too few workers are asked for. -/
  fails : (∃ failure, Settings.resolve environment arguments = .error failure) ↔
    AsksTooFew arguments
  /-- Otherwise they are those of the environment under the flags. -/
  succeeds : ¬ AsksTooFew arguments →
    ∃ settings, Settings.resolve environment arguments = .ok settings ∧
      Overlays arguments held settings ∧ settings.Valid
  /-- They are what the values of the flags come to over the record of those of the environment. -/
  rechecked : Settings.resolve environment arguments =
    (Settings.ofFields (recordOver arguments held ++ held.record)).mapError .refused
  /-- Without flags they are those of the environment, which pass their own check unchanged. -/
  unflagged : Unflagged arguments →
    Settings.resolve environment arguments = .ok held ∧ Settings.ofFields held.record = .ok held
  /-- A variable does not matter when the flag of its field takes its place. -/
  hidden : ∀ (other : Environment) (otherHeld : Settings), Settings.load other = .ok otherHeld →
    (∀ field : Field, ¬ Replaces arguments field →
      environment.get? field.variable = other.get? field.variable) →
    Settings.resolve other arguments = Settings.resolve environment arguments

/-- **Flags go over variables, and variables over standard values.** -/
theorem resolve_precedence {texts : List String}
    (parsed : Arguments.parse texts = .ok arguments)
    (loaded : Settings.load environment = .ok held) : Precedence environment arguments held := by
  have valid := valid_of_load loaded
  have present := not_lacksValue (Arguments.hasValues_of_parse parsed)
  have resolved (settings : Settings) : Settings.resolve environment arguments = .ok settings ↔
      Overlays arguments held settings ∧ 1 ≤ settings.workers := by
    rw [resolve_eq loaded, mapError_eq_ok_iff, overlay_eq_ok_iff]
  have possible := @exists_overlays_iff arguments held valid.workers
  refine ⟨?_, ?_, ?_, ?_, ?_⟩
  · have failure : (∃ failure, Settings.resolve environment arguments = .error failure) ↔
        ¬ ∃ settings, Settings.resolve environment arguments = .ok settings := by
      cases Settings.resolve environment arguments <;> simp
    simp only [failure, resolved, possible]
    rw [and_iff_left present, not_not]
  · intro many
    obtain ⟨settings, overlays, enough⟩ := possible.mpr ⟨many, present⟩
    exact ⟨settings, (resolved settings).mpr ⟨overlays, enough⟩, overlays, enough,
      overlays.dotted valid⟩
  · rw [resolve_eq loaded, overlay_eq_ofFields valid.dotted]
  · intro unflagged
    exact ⟨(resolved held).mpr ⟨.of_unflagged unflagged held, valid.workers⟩, ofFields_record valid⟩
  · intro other otherHeld loadedToo same
    have agree : ∀ field : Field, ¬ Replaces arguments field → field.Agree otherHeld held :=
      fun field shown => agree_of_load loadedToo loaded (same field shown).symm
    rw [resolve_eq loadedToo, resolve_eq loaded, overlay_congr agree]

end

namespace Sample

/-- A module and a number of workers. -/
def environment : Environment := fun name =>
  if name = "REACT_NAMED_IMPORTS_MODULE" then some " preact "
  else if name = "REACT_NAMED_IMPORTS_WORKERS" then some "4"
  else none

/-- Flags for the namespace, the number of workers, the suffixes and a name to leave out. -/
def flags : List String :=
  ["src", "--namespace=R", "--workers", "2", "--extensions", "ts, ,.tsx", "--ignore", "vendor"]

theorem parse_flags : Arguments.parse flags = .ok
    { paths := ["src"], namespaceName := some (.value "R"), workers := some (.value 2)
      extensions := some (.value "ts, ,.tsx"), ignored := [.value "vendor"] } := by
  decide +kernel

theorem load_environment :
    Settings.load environment = .ok { moduleName := "preact", workers := 4 } :=
  rfl

end Sample

theorem resolve_precedence_flags :
    ∃ arguments, Arguments.parse Sample.flags = .ok arguments ∧
      Settings.load Sample.environment = .ok { moduleName := "preact", workers := 4 } ∧
      Precedence Sample.environment arguments { moduleName := "preact", workers := 4 } ∧
      Settings.resolve Sample.environment arguments = .ok
        { namespaceName := "R", moduleName := "preact", workers := 2
          extensions := [".ts", ".tsx"]
          excluded := ({} : Settings).excluded ++ ["vendor"] } :=
  ⟨_, Sample.parse_flags, Sample.load_environment,
    resolve_precedence Sample.parse_flags Sample.load_environment, rfl⟩

end Settings

end Unqualify
