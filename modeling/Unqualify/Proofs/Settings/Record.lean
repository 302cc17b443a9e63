import Unqualify.Program
import Unqualify.Proofs.Settings

/-!
# Settings as a record

Settings can be written down as a record and checked again. Putting flags over settings comes to the
same as putting their values over that record and checking the whole of it, refusals included
(`overlay_eq_ofFields`): a suffix that has its dot gets no second one, no name is left out twice,
and a flag without a value is refused where the check comes across it.

Both sides gather the refusals of several checks. They are compared by moving every function that is
applied to a checked value to the outside, which leaves one function over the same checks in the
same order on each side.
-/

set_option autoImplicit false

namespace Unqualify

/-! ## Rearranging checks -/

namespace Checked

variable {α β γ : Type}

theorem and_ok (first : Checked α) (b : β) : first.and (.ok b) = first.map (·, b) := by
  cases first <;> rfl

theorem ok_and (a : α) (second : Checked β) : and (.ok a) second = second.map (a, ·) := by
  cases second <;> rfl

theorem map_and (f : α → γ) (first : Checked α) (second : Checked β) :
    and (first.map f) second = (first.and second).map (Prod.map f id) := by
  cases first <;> cases second <;> rfl

theorem and_map (g : β → γ) (first : Checked α) (second : Checked β) :
    first.and (second.map g) = (first.and second).map (Prod.map id g) := by
  cases first <;> cases second <;> rfl

theorem and_assoc (first : Checked α) (second : Checked β) (third : Checked γ) :
    (first.and second).and third =
      (first.and (second.and third)).map fun found => ((found.1, found.2.1), found.2.2) := by
  cases first <;> cases second <;> cases third <;> simp [and, Except.map]

theorem map_map (f : α → β) (g : β → γ) (checked : Checked α) :
    (checked.map f).map g = checked.map (g ∘ f) := by
  cases checked <;> rfl

theorem within_map (step : Step) (f : α → β) (checked : Checked α) :
    within step (checked.map f) = (within step checked).map f := by
  cases checked <;> rfl

theorem within_and (step : Step) (first : Checked α) (second : Checked β) :
    within step (first.and second) = (within step first).and (within step second) := by
  cases first <;> cases second <;> simp [and, within, Except.mapError]

end Checked

theorem Check.itemsFrom_append (position : Nat) (texts : List String) (values : List Value) :
    itemsFrom text position (texts.map .text ++ values) =
      (itemsFrom text (position + texts.length) values).map (texts ++ ·) := by
  induction texts generalizing position with
  | nil =>
      rw [List.map_nil, List.nil_append, List.length_nil, Nat.add_zero]
      cases itemsFrom text position values <;> rfl
  | cons first rest ih =>
      have own : Checked.within (.index position) (text (.text first)) = .ok first := rfl
      rw [List.map_cons, List.cons_append, itemsFrom, ih, own, Checked.ok_and, Checked.map_map,
        Checked.map_map, List.length_cons, Nat.add_assoc, Nat.add_comm 1]
      rfl

/-! ## Records -/

/-- The value that a flag hands over. A flag that has got only a separator hands over an empty
list. -/
def Given.valueBy {α : Type} (write : α → Value) : Given α → Value
  | .value got => write got
  | .nothing => .list []

namespace Settings

/-- The text of the flag that lists suffixes, if there is any in it. -/
def suffixText? (arguments : Arguments) : Option String :=
  (arguments.extensions.bind Given.value?).filter (· != "")

/-- The suffixes that settings have under flags. -/
def suffixesOver (arguments : Arguments) (held : List String) : List String :=
  match suffixText? arguments with
  | some text => dottedAll (Text.commaList text)
  | none => held

/-- The record of settings, with every field. -/
def record (settings : Settings) : Check.Fields :=
  [("namespace", .text settings.namespaceName),
   ("module", .text settings.moduleName),
   ("quote", Value.ofText? (settings.quote.map Quote.name)),
   ("semicolons", settings.semicolons.elim .null .bool),
   ("workers", .int settings.workers),
   ("extensions", .list (settings.extensions.map .text)),
   ("exclude_patterns", .list (settings.excluded.map .text))]

/-- The names to leave out under flags, as a value. -/
def excludedOver (arguments : Arguments) (held : List String) : Option Value :=
  if arguments.ignored = [] then none
  else some (.list (held.map .text ++ arguments.ignored.map (Given.valueBy .text)))

/-- The record of the flags that are given over settings. -/
def recordOver (arguments : Arguments) (held : Settings) : Check.Fields :=
  Environment.entry "namespace" (arguments.namespaceName.map (Given.valueBy .text)) ++
    Environment.entry "module" (arguments.moduleName.map (Given.valueBy .text)) ++
    Environment.entry "quote" (arguments.quote.map (Given.valueBy fun quote => .text quote.name)) ++
    Environment.entry "semicolons" (arguments.semicolons.map .bool) ++
    Environment.entry "workers" (arguments.workers.map (Given.valueBy .int)) ++
    Environment.entry "extensions"
      ((suffixText? arguments).map fun text => .list ((Text.commaList text).map .text)) ++
    Environment.entry "exclude_patterns" (excludedOver arguments held.excluded)

/-! ## Fields -/

section

variable {fields : Check.Fields} {name : String}

theorem field_text_over {given : Option (Given String)} {held : String} (standard : String)
    (looked : fields.lookup name = (given.map (Given.valueBy .text)).or (some (.text held))) :
    Check.field fields name Check.text standard = field name .notText given held := by
  rw [Check.field, looked]
  rcases given with _ | (_ | _) <;> rfl

theorem field_quote_over {given : Option (Given Quote)} {held : Option Quote}
    (looked : fields.lookup name =
      (given.map (Given.valueBy fun quote => .text quote.name)).or
        (some (Value.ofText? (held.map Quote.name)))) :
    Check.field fields name (Check.optional (Check.oneOf .notAmong Quote.cases)) none =
      field name (.notAmong (Quote.all.map Quote.name)) (given.map (Given.map some)) held := by
  have accepted (quote : Quote) :
      Checked.within (.field name)
        (Check.optional (Check.oneOf .notAmong Quote.cases) (.text quote.name)) =
          .ok (some quote) :=
    Checked.within_eq_ok_iff.mpr (Check.quote_eq_ok_iff.mpr ⟨quote, rfl, rfl⟩)
  rw [Check.field, looked]
  rcases given with _ | (quote | _)
  · cases held with
    | none => rfl
    | some quote => exact accepted quote
  · exact accepted quote
  · rfl

theorem field_semicolons_over {given held : Option Bool}
    (looked : fields.lookup name = (given.map .bool).or (some (held.elim .null .bool))) :
    Check.field fields name (Check.optional Check.bool) none = .ok (given.or held) := by
  rw [Check.field, looked]
  cases given <;> cases held <;> rfl

theorem field_workers_over {given : Option (Given Int)} {held : Nat}
    (looked : fields.lookup "workers" = (given.map (Given.valueBy .int)).or (some (.int held))) :
    (Check.field fields "workers" (Check.atLeast 1) 1).map Int.toNat = workersField given held := by
  have checked (number : Int) : Check.atLeast 1 (.int number) =
      if number < 1 then .refuse (.below 1) (.int number) else .ok number := rfl
  have same (number : Int) :
      (Checked.within (.field "workers") (Check.atLeast 1 (.int number))).map Int.toNat =
        if number < 1 then Checked.within (.field "workers") (.refuse (.below 1) (.int number))
        else .ok number.toNat := by
    rw [checked]
    split <;> rfl
  rw [Check.field, looked]
  rcases given with _ | (number | _)
  · exact same held
  · exact same number
  · rfl

theorem field_extensions_over {arguments : Arguments} {held : List String} (standard : List String)
    (haveDots : ∀ suffix ∈ held, suffix.toList.head? = some '.')
    (looked : fields.lookup name =
      ((suffixText? arguments).map fun text => .list ((Text.commaList text).map .text)).or
        (some (.list (held.map .text)))) :
    (Check.field fields name (Check.list Check.text) standard).map dottedAll =
      .ok (suffixesOver arguments held) := by
  rw [Check.field, looked, suffixesOver]
  cases suffixText? arguments with
  | none =>
      simp only [Option.map_none, Option.none_or, Check.list_text]
      exact congrArg Except.ok (dottedAll_of_head? haveDots)
  | some text =>
      simp only [Option.map_some, Option.some_or, Check.list_text]
      rfl

theorem itemsFrom_valueBy (position : Nat) (ignored : List (Given String)) :
    Checked.within (.field "exclude_patterns")
        (Check.itemsFrom Check.text position (ignored.map (Given.valueBy .text))) =
      excludedField position ignored := by
  induction ignored generalizing position with
  | nil => rfl
  | cons given rest ih =>
      rw [List.map_cons, Check.itemsFrom, Checked.within_map, Checked.within_and, ih]
      cases given <;> rfl

theorem field_excluded_over {arguments : Arguments} {held : List String} (standard : List String)
    (looked : fields.lookup "exclude_patterns" =
      (excludedOver arguments held).or (some (.list (held.map .text)))) :
    Check.field fields "exclude_patterns" (Check.list Check.text) standard =
      (excludedField held.length arguments.ignored).map (held ++ ·) := by
  have given : (excludedOver arguments held).or (some (.list (held.map .text))) =
      some (.list (held.map .text ++ arguments.ignored.map (Given.valueBy .text))) := by
    rw [excludedOver]
    split
    next empty => rw [empty, List.map_nil, List.append_nil, Option.none_or]
    next => rfl
  -- The names that are there are texts, so only those that flags give can be refused.
  rw [Check.field, looked, given]
  simp only [Check.list]
  rw [Check.itemsFrom_append, Nat.zero_add, Checked.within_map, itemsFrom_valueBy]

end

/-! ## Settings -/

section

variable {held : Settings}

theorem overlay_eq (held : Settings) (arguments : Arguments) :
    held.overlay arguments =
      ((field "namespace" .notText arguments.namespaceName held.namespaceName).and
        ((field "module" .notText arguments.moduleName held.moduleName).and
          ((field "quote" (.notAmong (Quote.all.map Quote.name))
              (arguments.quote.map (Given.map some)) held.quote).and
            ((workersField arguments.workers held.workers).and
              (excludedField held.excluded.length arguments.ignored))))).map
        fun (namespaceName, moduleName, quote, workers, ignored) =>
          { namespaceName, moduleName, quote, workers
            extensions := suffixesOver arguments held.extensions
            semicolons := arguments.semicolons.or held.semicolons
            excluded := held.excluded ++ ignored } :=
  rfl

theorem lookup_recordOver (arguments : Arguments) (held : Settings) :
    let fields := recordOver arguments held ++ held.record
    fields.lookup "namespace" =
        (arguments.namespaceName.map (Given.valueBy .text)).or (some (.text held.namespaceName)) ∧
      fields.lookup "module" =
        (arguments.moduleName.map (Given.valueBy .text)).or (some (.text held.moduleName)) ∧
      fields.lookup "quote" =
        (arguments.quote.map (Given.valueBy fun quote => .text quote.name)).or
          (some (Value.ofText? (held.quote.map Quote.name))) ∧
      fields.lookup "semicolons" =
        (arguments.semicolons.map .bool).or (some (held.semicolons.elim .null .bool)) ∧
      fields.lookup "workers" =
        (arguments.workers.map (Given.valueBy .int)).or (some (.int held.workers)) ∧
      fields.lookup "extensions" =
        ((suffixText? arguments).map fun text => .list ((Text.commaList text).map .text)).or
          (some (.list (held.extensions.map .text))) ∧
      fields.lookup "exclude_patterns" =
        (excludedOver arguments held.excluded).or (some (.list (held.excluded.map .text))) := by
  simp [recordOver, record, List.lookup_append, Environment.lookup_entry, List.lookup_cons]

/-- **Flags put over settings are their values put over the record of the settings, and
checked.** -/
theorem overlay_eq_ofFields (haveDots : ∀ suffix ∈ held.extensions, suffix.toList.head? = some '.')
    (arguments : Arguments) :
    held.overlay arguments = Settings.ofFields (recordOver arguments held ++ held.record) := by
  obtain ⟨forNamespace, forModule, forQuote, forSemicolons, forWorkers, forExtensions,
    forExcluded⟩ := lookup_recordOver arguments held
  obtain ⟨suffixes, suffixesChecked, withDots⟩ :=
    Checked.map_eq_ok_iff.mp
      (field_extensions_over ({} : Settings).extensions haveDots forExtensions)
  rw [overlay_eq, Settings.ofFields, Options.ofFields, field_text_over _ forNamespace,
    field_text_over _ forModule, field_quote_over forQuote, field_semicolons_over forSemicolons,
    ← field_workers_over forWorkers, suffixesChecked, ← withDots, field_excluded_over _ forExcluded]
  -- With all functions outside, both sides are one function over the same five checks.
  simp only [Checked.and_ok, Checked.ok_and, Checked.map_and, Checked.and_map, Checked.and_assoc,
    Checked.map_map]
  rfl

end

end Settings

end Unqualify
