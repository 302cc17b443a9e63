import Unqualify.Proofs.SourceUnit
import Unqualify.Proofs.Text.Item
import Unqualify.Settings

/-!
# Settings from the environment

Every field of the settings has a variable of its own. A field holds what its variable says, and its
standard value when the variable is not set; there are settings exactly when every variable that is
set says something (`load_eq_ok_iff`). So environments that agree on a variable give settings that
agree on its field (`agree_of_load`).

Settings that were checked have at least one worker, and all their suffixes have a dot (`Valid`).
-/

set_option autoImplicit false

namespace Unqualify

/-! ## Checks side by side -/

namespace Checked

variable {α β : Type} {a : α} {b : β} {first : Checked α} {second : Checked β}

theorem and_eq_ok_iff : first.and second = .ok (a, b) ↔ first = .ok a ∧ second = .ok b := by
  cases first <;> cases second <;> simp [and]

theorem map_eq_ok_iff {f : α → β} : first.map f = .ok b ↔ ∃ a, first = .ok a ∧ f a = b := by
  cases first <;> simp [Except.map]

theorem within_eq_ok_iff {step : Step} : Checked.within step first = .ok a ↔ first = .ok a :=
  mapError_eq_ok_iff

end Checked

namespace Check

/-- The value of a field is read from what was found for it, and it is a standard value if nothing
was found. -/
def Gives {α β : Type} (reads : α → β → Prop) (standard : β) : Option α → β → Prop
  | none, value => value = standard
  | some found, value => reads found value

section

variable {α : Type} {fields : Fields} {name : String} {check : Value → Checked α}
    {fallback value : α}

theorem field_eq_ok_iff {found : Option Value} (looked : fields.lookup name = found) :
    field fields name check fallback = .ok value ↔
      Gives (fun found value => check found = .ok value) fallback found value := by
  rw [field, looked]
  cases found with
  | none => exact ⟨fun same => (Except.ok.inj same).symm, fun same => same ▸ rfl⟩
  | some found => exact Checked.within_eq_ok_iff

end

theorem itemsFrom_text (position : Nat) (texts : List String) :
    itemsFrom text position (texts.map .text) = .ok texts := by
  induction texts generalizing position with
  | nil => rfl
  | cons first rest ih =>
      rw [List.map_cons, itemsFrom, ih]
      rfl

theorem list_text (texts : List String) : list text (.list (texts.map .text)) = .ok texts :=
  itemsFrom_text 0 texts

theorem atLeast_int_eq_ok_iff {bound given number : Int} :
    atLeast bound (.int given) = .ok number ↔ bound ≤ given ∧ number = given := by
  have checked : atLeast bound (.int given) =
      if given < bound then .refuse (.below bound) (.int given) else .ok given := rfl
  rw [checked]
  split
  next below => exact iff_of_false nofun fun enough => absurd enough.1 (Int.not_le.mpr below)
  next enough => simp [Int.not_lt.mp enough, eq_comm]

theorem quote_eq_ok_iff {name : String} {chosen : Option Quote} :
    optional (oneOf .notAmong Quote.cases) (.text name) = .ok chosen ↔
      ∃ quote : Quote, name = quote.name ∧ chosen = some quote := by
  have named : ∀ quote : Quote, Quote.cases.find? (fun case => case.1 == quote.name) =
      some (quote.name, quote) := by
    rintro (_ | _) <;> decide
  rw [optional, Checked.map_eq_ok_iff]
  constructor
  · rintro ⟨quote, accepted, rfl⟩
    simp only [oneOf] at accepted
    split at accepted
    next case found =>
      obtain ⟨listed, same⟩ := List.find?_eq_some_iff_append.mp found
      have member := List.mem_of_find?_eq_some found
      obtain ⟨own, _, rfl⟩ := List.mem_map.mp member
      exact ⟨own, (beq_iff_eq.mp listed).symm, congrArg some (Except.ok.inj accepted).symm⟩
    next => exact nomatch accepted
  · rintro ⟨quote, rfl, rfl⟩
    refine ⟨quote, ?_, rfl⟩
    simp only [oneOf, named]
  · exact nofun

end Check

/-! ## Fields -/

namespace Settings

/-- The fields of settings. -/
inductive Field where
  | namespaceName
  | moduleName
  | quote
  | semicolons
  | workers
  | extensions
  | excluded
  deriving DecidableEq, Repr

/-- The settings agree on a field. -/
def Field.Agree (field : Field) (settings other : Settings) : Prop :=
  match field with
  | .namespaceName => settings.namespaceName = other.namespaceName
  | .moduleName => settings.moduleName = other.moduleName
  | .quote => settings.quote = other.quote
  | .semicolons => settings.semicolons = other.semicolons
  | .workers => settings.workers = other.workers
  | .extensions => settings.extensions = other.extensions
  | .excluded => settings.excluded = other.excluded

theorem Field.forall_iff {good : Field → Prop} :
    (∀ field, good field) ↔
      good .namespaceName ∧ good .moduleName ∧ good .quote ∧ good .semicolons ∧
      good .workers ∧ good .extensions ∧ good .excluded := by
  constructor
  · exact fun all => ⟨all _, all _, all _, all _, all _, all _, all _⟩
  · rintro ⟨_, _, _, _, _, _, _⟩ (_ | _ | _ | _ | _ | _ | _) <;> assumption

/-! ## Suffixes -/

/-- A suffix is an item with a dot in front, which is put there if it is missing. -/
inductive Dotted (item : String) : String → Prop
  | own (starts : item.toList.head? = some '.') : Dotted item item
  | added (bare : item.toList.head? ≠ some '.') : Dotted item ("." ++ item)

theorem dotted_eq (item : String) :
    dotted item = if item.toList.head? = some '.' then item else "." ++ item := by
  have starts : ['.'].isPrefixOf item.toList = true ↔ item.toList.head? = some '.' := by
    cases item.toList <;> simp [@eq_comm _ '.']
  simp only [dotted, starts]

theorem dotted_iff {item suffix : String} : Dotted item suffix ↔ dotted item = suffix := by
  rw [dotted_eq]
  constructor
  · rintro (starts | bare)
    · rw [if_pos starts]
    · rw [if_neg bare]
  · rintro rfl
    split
    next starts => exact .own starts
    next bare => exact .added bare

theorem Dotted.head? {item suffix : String} (isDotted : Dotted item suffix) :
    suffix.toList.head? = some '.' := by
  cases isDotted with
  | own starts => exact starts
  | added => simp

/-- The suffixes that a text lists: its items, each with its dot. -/
def ListsSuffixes (text : String) (suffixes : List String) : Prop :=
  ∃ items, Text.Listed text items ∧ List.Forall₂ Dotted items suffixes

theorem dottedAll_of_ne_empty {items : List String} (nonempty : ∀ item ∈ items, item ≠ "") :
    dottedAll items = items.map dotted := by
  rw [dottedAll, List.filter_eq_self.mpr]
  exact fun item among => bne_iff_ne.mpr (nonempty item among)

theorem listsSuffixes_iff {text : String} {suffixes : List String} :
    ListsSuffixes text suffixes ↔ dottedAll (Text.commaList text) = suffixes := by
  rw [dottedAll_of_ne_empty fun _ => Text.ne_empty_of_mem_commaList]
  constructor
  · rintro ⟨items, listed, each⟩
    rw [Text.listed_iff.mp listed, ← List.forall₂_eq_eq_eq, List.forall₂_map_left_iff]
    exact each.imp fun _ _ => dotted_iff.mp
  · rintro rfl
    refine ⟨_, Text.listed_iff.mpr rfl, ?_⟩
    rw [List.forall₂_map_right_iff, List.forall₂_same]
    exact fun _ _ => dotted_iff.mpr rfl

theorem head?_of_mem_dottedAll {items : List String} {suffix : String}
    (among : suffix ∈ dottedAll items) : suffix.toList.head? = some '.' := by
  obtain ⟨item, _, rfl⟩ := List.mem_map.mp among
  exact (dotted_iff.mpr rfl).head?

/-- Suffixes that have their dots stay as they are. -/
theorem dottedAll_of_head? {suffixes : List String}
    (haveDots : ∀ suffix ∈ suffixes, suffix.toList.head? = some '.') :
    dottedAll suffixes = suffixes := by
  have nonempty : ∀ suffix ∈ suffixes, suffix ≠ "" := by
    rintro _ among rfl
    exact nomatch haveDots "" among
  rw [dottedAll_of_ne_empty nonempty]
  refine (List.map_congr_left fun suffix among => ?_).trans (List.map_id _)
  exact dotted_iff.mp (.own (haveDots suffix among))

/-! ## Checked settings -/

/-- Settings that a run can have. -/
structure Valid (settings : Settings) : Prop where
  workers : 1 ≤ settings.workers
  /-- Every suffix has its dot. -/
  dotted : ∀ suffix ∈ settings.extensions, suffix.toList.head? = some '.'

theorem ofFields_eq_ok_iff {fields : Check.Fields} {settings : Settings} :
    Settings.ofFields fields = .ok settings ↔
      Check.field fields "namespace" Check.text "React" = .ok settings.namespaceName ∧
      Check.field fields "module" Check.text "react" = .ok settings.moduleName ∧
      Check.field fields "quote" (Check.optional (Check.oneOf .notAmong Quote.cases)) none =
        .ok settings.quote ∧
      Check.field fields "semicolons" (Check.optional Check.bool) none = .ok settings.semicolons ∧
      (∃ workers, Check.field fields "workers" (Check.atLeast 1) 1 = .ok workers ∧
        workers.toNat = settings.workers) ∧
      (∃ suffixes, Check.field fields "extensions" (Check.list Check.text)
        ({} : Settings).extensions = .ok suffixes ∧ dottedAll suffixes = settings.extensions) ∧
      Check.field fields "exclude_patterns" (Check.list Check.text) ({} : Settings).excluded =
        .ok settings.excluded := by
  simp only [Settings.ofFields, Options.ofFields, Checked.map_eq_ok_iff, Prod.exists,
    Checked.and_eq_ok_iff]
  constructor
  · rintro ⟨_, _, _, _, ⟨⟨_, _, _, _, options, rfl⟩, workers, extensions, excluded⟩, rfl⟩
    exact ⟨options.1, options.2.1, options.2.2.1, options.2.2.2, ⟨_, workers, rfl⟩,
      ⟨_, extensions, rfl⟩, excluded⟩
  · rintro ⟨namespaceName, moduleName, quote, semicolons, ⟨_, workers, number⟩,
      ⟨_, extensions, suffixes⟩, excluded⟩
    refine ⟨_, _, _, _, ⟨⟨_, _, _, _, ⟨namespaceName, moduleName, quote, semicolons⟩, rfl⟩, workers,
      extensions, excluded⟩, ?_⟩
    rw [number, suffixes]

end Settings

/-! ## Variables -/

namespace Environment

section

variable {environment : Environment} {key raw : String}

theorem bool_eq_ok_iff {value : Bool} :
    bool key raw = .ok value ↔ truthWord? (Check.lowerAscii (Text.trim raw)) = some value := by
  delta bool
  cases truthWord? (Check.lowerAscii (Text.trim raw)) <;> simp

theorem integer_eq_ok_iff {number : Int} :
    integer raw = .ok number ↔ Text.readInteger raw = .ok number := by
  rw [integer]
  split <;> simp [*]

theorem mapM_eq_ok_iff {ε α β : Type} {read : α → Except ε β} {found : Option α} {got : Option β} :
    found.mapM read = .ok got ↔
      found = none ∧ got = none ∨
        ∃ raw value, found = some raw ∧ read raw = .ok value ∧ got = some value := by
  cases found with
  | none => simp [pure, Except.pure, eq_comm]
  | some raw => cases step : read raw <;> simp [step, eq_comm]

theorem lookup_entry (name other : String) (value : Option Value) :
    (entry name value).lookup other = if other = name then value else none := by
  cases value with
  | none => simp [entry]
  | some value =>
      by_cases same : other = name
      · simp [entry, same]
      · simp [entry, List.lookup_cons, beq_eq_false_iff_ne.mpr same, same]

/-- The record of an environment whose truth value and integer have been read. -/
def recordOf (environment : Environment) (semicolons : Option Bool) (workers : Option Int) :
    Check.Fields :=
  let text (name : String) : Option Value :=
    (environment.get? name).map fun raw => .text (Text.trim raw)
  let list (name : String) : Option Value :=
    (environment.get? name).map fun raw => .list ((Text.commaList raw).map .text)
  entry "namespace" (text "NAMESPACE") ++ entry "module" (text "MODULE") ++
    entry "quote" (text "QUOTE") ++ entry "semicolons" (semicolons.map .bool) ++
    entry "workers" (workers.map .int) ++ entry "extensions" (list "EXTENSIONS") ++
    entry "exclude_patterns" (list "EXCLUDE_PATTERNS")

theorem fields_eq_ok_iff {fields : Check.Fields} :
    environment.fields = .ok fields ↔ ∃ semicolons workers,
      (environment.get? "SEMICOLONS").mapM (bool "SEMICOLONS") = .ok semicolons ∧
      (environment.get? "WORKERS").mapM integer = .ok workers ∧
      environment.recordOf semicolons workers = fields := by
  rw [Environment.fields, bind_eq_ok_iff]
  refine exists_congr fun semicolons => ?_
  rw [bind_eq_ok_iff, ← exists_and_left]
  refine exists_congr fun workers => and_congr_right fun _ => and_congr_right fun _ => ?_
  exact ⟨Except.ok.inj, congrArg Except.ok⟩

variable (semicolons : Option Bool) (workers : Option Int)

theorem lookup_recordOf :
    let fields := environment.recordOf semicolons workers
    fields.lookup "namespace" =
        (environment.get? "NAMESPACE").map (fun raw => .text (Text.trim raw)) ∧
      fields.lookup "module" = (environment.get? "MODULE").map (fun raw => .text (Text.trim raw)) ∧
      fields.lookup "quote" = (environment.get? "QUOTE").map (fun raw => .text (Text.trim raw)) ∧
      fields.lookup "semicolons" = semicolons.map .bool ∧
      fields.lookup "workers" = workers.map .int ∧
      fields.lookup "extensions" = (environment.get? "EXTENSIONS").map
        (fun raw => .list ((Text.commaList raw).map .text)) ∧
      fields.lookup "exclude_patterns" = (environment.get? "EXCLUDE_PATTERNS").map
        (fun raw => .list ((Text.commaList raw).map .text)) := by
  simp [recordOf, List.lookup_append, lookup_entry]

end

end Environment

namespace Settings

/-- The name of the variable for a field. -/
def Field.variable : Field → String
  | .namespaceName => "NAMESPACE"
  | .moduleName => "MODULE"
  | .quote => "QUOTE"
  | .semicolons => "SEMICOLONS"
  | .workers => "WORKERS"
  | .extensions => "EXTENSIONS"
  | .excluded => "EXCLUDE_PATTERNS"

/-- A field of settings holds what a text says. -/
def Field.Says (field : Field) (text : String) (settings : Settings) : Prop :=
  match field with
  | .namespaceName => settings.namespaceName = Text.trim text
  | .moduleName => settings.moduleName = Text.trim text
  | .quote => ∃ quote : Quote, Text.trim text = quote.name ∧ settings.quote = some quote
  | .semicolons =>
      ∃ wanted, Environment.truthWord? (Check.lowerAscii (Text.trim text)) = some wanted ∧
        settings.semicolons = some wanted
  | .workers =>
      ∃ number : Int, Text.readInteger text = .ok number ∧ 1 ≤ number ∧
        settings.workers = number.toNat
  | .extensions => ListsSuffixes text settings.extensions
  | .excluded => Text.Listed text settings.excluded

/-- A field of settings holds what its variable says, if the variable is set, and its standard value
otherwise. -/
def Field.Holds (field : Field) (found : Option String) (settings : Settings) : Prop :=
  match found with
  | none => field.Agree settings {}
  | some text => field.Says text settings

section

variable {environment : Environment} {settings : Settings} {semicolons : Option Bool}
  {workers : Option Int} {fields : Check.Fields} {name value fallback : String}
    {found : Option String}

theorem field_text_iff
    (looked : fields.lookup name = found.map fun raw => .text (Text.trim raw)) :
    Check.field fields name Check.text fallback = .ok value ↔
      Check.Gives (fun raw value => value = Text.trim raw) fallback found value := by
  rw [Check.field_eq_ok_iff looked]
  cases found with
  | none => exact Iff.rfl
  | some raw => exact ⟨fun same => (Except.ok.inj same).symm, fun same => same ▸ rfl⟩

theorem field_list_iff {listed standard : List String}
    (looked : fields.lookup name = found.map fun raw => .list ((Text.commaList raw).map .text)) :
    Check.field fields name (Check.list Check.text) standard = .ok listed ↔
      Check.Gives (fun raw listed => Text.commaList raw = listed) standard found listed := by
  rw [Check.field_eq_ok_iff looked]
  cases found with
  | none => exact Iff.rfl
  | some raw =>
      simp only [Option.map_some, Check.Gives, Check.list_text]
      exact ⟨Except.ok.inj, congrArg Except.ok⟩

theorem field_quote_iff {chosen : Option Quote}
    (looked : fields.lookup name = found.map fun raw => .text (Text.trim raw)) :
    Check.field fields name (Check.optional (Check.oneOf .notAmong Quote.cases)) none = .ok chosen ↔
      Check.Gives
        (fun raw chosen => ∃ quote : Quote, Text.trim raw = quote.name ∧ chosen = some quote) none
        found chosen := by
  rw [Check.field_eq_ok_iff looked]
  cases found with
  | none => exact Iff.rfl
  | some raw => exact Check.quote_eq_ok_iff

theorem field_semicolons_iff {wanted : Option Bool}
    (looked : fields.lookup name = semicolons.map .bool) :
    Check.field fields name (Check.optional Check.bool) none = .ok wanted ↔
      semicolons = wanted := by
  rw [Check.field_eq_ok_iff looked]
  cases semicolons with
  | none => exact eq_comm
  | some given => exact ⟨Except.ok.inj, congrArg Except.ok⟩

theorem field_workers_iff {number : Int} (looked : fields.lookup name = workers.map .int) :
    Check.field fields name (Check.atLeast 1) 1 = .ok number ↔
      Check.Gives (fun given number => 1 ≤ given ∧ number = given) 1 workers number := by
  rw [Check.field_eq_ok_iff looked]
  cases workers with
  | none => exact Iff.rfl
  | some given => exact Check.atLeast_int_eq_ok_iff

/-- Settings are checked field by field. -/
theorem ofFields_recordOf_iff :
    Settings.ofFields (environment.recordOf semicolons workers) = .ok settings ↔
      Field.namespaceName.Holds (environment.get? "NAMESPACE") settings ∧
      Field.moduleName.Holds (environment.get? "MODULE") settings ∧
      Field.quote.Holds (environment.get? "QUOTE") settings ∧
      semicolons = settings.semicolons ∧
      Check.Gives (fun given number => 1 ≤ given ∧ number = given.toNat) 1 workers
        settings.workers ∧
      Field.extensions.Holds (environment.get? "EXTENSIONS") settings ∧
      Field.excluded.Holds (environment.get? "EXCLUDE_PATTERNS") settings := by
  obtain ⟨forNamespace, forModule, forQuote, forSemicolons, forWorkers, forExtensions,
    forExcluded⟩ := @Environment.lookup_recordOf environment semicolons workers
  refine ofFields_eq_ok_iff.trans (and_congr ((field_text_iff forNamespace).trans ?_)
    (and_congr ((field_text_iff forModule).trans ?_)
      (and_congr ((field_quote_iff forQuote).trans ?_)
        (and_congr (field_semicolons_iff forSemicolons)
          (and_congr ?_ (and_congr ?_ ((field_list_iff forExcluded).trans ?_)))))))
  · cases environment.get? "NAMESPACE" <;> exact Iff.rfl
  · cases environment.get? "MODULE" <;> exact Iff.rfl
  · cases environment.get? "QUOTE" <;> exact Iff.rfl
  · simp only [field_workers_iff forWorkers]
    cases workers with
    | none => simp [Check.Gives, eq_comm]
    | some given => simp [Check.Gives, and_assoc, eq_comm]
  · simp only [field_list_iff forExtensions]
    cases environment.get? "EXTENSIONS" with
    | none =>
        simp only [Check.Gives, exists_eq_left]
        exact eq_comm
    | some text =>
        simp only [Check.Gives, exists_eq_left']
        exact listsSuffixes_iff.symm
  · cases environment.get? "EXCLUDE_PATTERNS" with
    | none => exact Iff.rfl
    | some text => exact Text.listed_iff.symm

end

section

variable {environment other : Environment} {settings held : Settings} {field : Field}

/-- **There are settings when every variable that is set says something**, and each field holds what
its variable says. -/
theorem load_eq_ok_iff :
    Settings.load environment = .ok settings ↔
      ∀ field : Field, field.Holds (environment.get? field.variable) settings := by
  have loaded : Settings.load environment = .ok settings ↔ ∃ semicolons workers,
      (environment.get? "SEMICOLONS").mapM (Environment.bool "SEMICOLONS") = .ok semicolons ∧
      (environment.get? "WORKERS").mapM Environment.integer = .ok workers ∧
      Settings.ofFields (environment.recordOf semicolons workers) = .ok settings := by
    simp only [Settings.load, bind_eq_ok_iff, mapError_eq_ok_iff, Environment.fields_eq_ok_iff]
    constructor
    · rintro ⟨_, ⟨semicolons, workers, truth, number, rfl⟩, checked⟩
      exact ⟨semicolons, workers, truth, number, checked⟩
    · rintro ⟨semicolons, workers, truth, number, checked⟩
      exact ⟨_, ⟨semicolons, workers, truth, number, rfl⟩, checked⟩
  have truth : (environment.get? "SEMICOLONS").mapM (Environment.bool "SEMICOLONS") =
      .ok settings.semicolons ↔
        Field.semicolons.Holds (environment.get? "SEMICOLONS") settings := by
    rw [Environment.mapM_eq_ok_iff]
    cases environment.get? "SEMICOLONS" with
    | none => simp [Field.Holds, Field.Agree]
    | some raw => simp [Field.Holds, Field.Says, Environment.bool_eq_ok_iff]
  have number : (∃ workers, (environment.get? "WORKERS").mapM Environment.integer = .ok workers ∧
      Check.Gives (fun given number => 1 ≤ given ∧ number = given.toNat) 1 workers
        settings.workers) ↔
        Field.workers.Holds (environment.get? "WORKERS") settings := by
    simp only [Environment.mapM_eq_ok_iff]
    cases environment.get? "WORKERS" with
    | none => simp [Field.Holds, Field.Agree, Check.Gives]
    | some raw => simp [Field.Holds, Field.Says, Check.Gives, Environment.integer_eq_ok_iff]
  rw [loaded, Field.forall_iff]
  simp only [ofFields_recordOf_iff]
  constructor
  · rintro ⟨_, workers, wanted, read, namespaceName, moduleName, quote, rfl, checked, lists⟩
    exact ⟨namespaceName, moduleName, quote, truth.mp wanted, number.mp ⟨workers, read, checked⟩,
      lists⟩
  · rintro ⟨namespaceName, moduleName, quote, holds, holdsToo, lists⟩
    obtain ⟨workers, read, checked⟩ := number.mpr holdsToo
    exact ⟨_, workers, truth.mpr holds, read, namespaceName, moduleName, quote, rfl, checked, lists⟩

/-- A text says one thing about a field. -/
theorem Field.Says.agree {text : String} (said : field.Says text settings)
    (saidToo : field.Says text held) : field.Agree settings held := by
  cases field with
  | namespaceName => exact Eq.trans said saidToo.symm
  | moduleName => exact Eq.trans said saidToo.symm
  | quote =>
      obtain ⟨quote, name, chosen⟩ := said
      obtain ⟨other, sameName, chosenToo⟩ := saidToo
      have same : quote = other := by
        rw [name] at sameName
        cases quote <;> cases other <;> first | rfl | exact absurd sameName (by decide)
      exact chosen.trans (same ▸ chosenToo.symm)
  | semicolons =>
      obtain ⟨wanted, word, holds⟩ := said
      obtain ⟨other, sameWord, holdsToo⟩ := saidToo
      have same : some wanted = some other := word.symm.trans sameWord
      exact holds.trans (same.trans holdsToo.symm)
  | workers =>
      obtain ⟨number, read, _, holds⟩ := said
      obtain ⟨other, readToo, _, holdsToo⟩ := saidToo
      have same : number = other := Except.ok.inj (read.symm.trans readToo)
      exact holds.trans (same ▸ holdsToo.symm)
  | extensions => exact (listsSuffixes_iff.mp said).symm.trans (listsSuffixes_iff.mp saidToo)
  | excluded => exact (Text.listed_iff.mp said).symm.trans (Text.listed_iff.mp saidToo)

theorem Field.Holds.agree {found : Option String} (holds : field.Holds found settings)
    (holdsToo : field.Holds found held) : field.Agree settings held := by
  cases found with
  | some text => exact Field.Says.agree holds holdsToo
  | none => cases field <;> exact Eq.trans holds holdsToo.symm

/-- **Environments with the same variable give settings with the same field.** -/
theorem agree_of_load (loaded : Settings.load environment = .ok settings)
    (loadedToo : Settings.load other = .ok held)
    (same : environment.get? field.variable = other.get? field.variable) :
    field.Agree settings held := by
  have holds := load_eq_ok_iff.mp loaded field
  rw [same] at holds
  exact holds.agree (load_eq_ok_iff.mp loadedToo field)

/-- Settings that come from an environment are valid. -/
theorem valid_of_load (loaded : Settings.load environment = .ok settings) : settings.Valid where
  workers := by
    have holds := load_eq_ok_iff.mp loaded .workers
    cases found : environment.get? "WORKERS" with
    | none =>
        rw [Field.variable, found] at holds
        exact holds.ge
    | some text =>
        rw [Field.variable, found] at holds
        obtain ⟨number, _, enough, same⟩ := holds
        omega
  dotted := by
    have holds := load_eq_ok_iff.mp loaded .extensions
    cases found : environment.get? "EXTENSIONS" with
    | none =>
        rw [Field.variable, found] at holds
        have standard : settings.extensions = [".js", ".jsx", ".ts", ".tsx"] := holds
        rw [standard]
        decide
    | some text =>
        rw [Field.variable, found] at holds
        intro suffix among
        rw [← listsSuffixes_iff.mp holds] at among
        exact head?_of_mem_dottedAll among

end

end Settings

end Unqualify
