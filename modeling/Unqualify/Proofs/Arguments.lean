import Unqualify.CommandLine.Arguments
import Unqualify.Proofs.SourceUnit

/-!
# Switches and their values

A switch that needs a value gets one when arguments are read, whatever the value looks like: only a
reader that takes a `--` away leaves a switch without (`hasValues_of_parse`). This is an invariant
of going through the arguments. Each of them sets at most one switch, and to a value (`assign`), and
none of them takes away what is set.
-/

set_option autoImplicit false

namespace Unqualify

namespace Arguments

/-- No switch is left without its value. -/
structure HasValues (arguments : Arguments) : Prop where
  stdinLanguage : arguments.stdinLanguage ≠ .nothing
  extensions : arguments.extensions ≠ some .nothing
  ignored : .nothing ∉ arguments.ignored
  workers : arguments.workers ≠ some .nothing
  namespaceName : arguments.namespaceName ≠ some .nothing
  moduleName : arguments.moduleName ≠ some .nothing
  quote : arguments.quote ≠ some .nothing

/-- Without any switches none is left without its value. -/
theorem hasValues_empty : HasValues {} := by
  constructor <;> exact nofun

/-- What is built from what a switch has got is built from a value. -/
theorem exists_value_of_given {α β : Type} {take : String → Except Misuse α} {value : String}
    {build : Given α → β} {built : β}
    (success : (given false take value >>= fun got => pure (build got)) = .ok built) :
    ∃ got, build (.value got) = built := by
  obtain ⟨got, taken, same⟩ := bind_eq_ok_iff.mp success
  rw [given, Bool.false_and, if_neg Bool.false_ne_true] at taken
  cases read : take value with
  | error found => rw [read] at taken; cases taken
  | ok text =>
      rw [read] at taken
      obtain rfl := Except.ok.inj taken
      exact ⟨text, Except.ok.inj same⟩

namespace HasValues

variable {before after : Arguments}

theorem turnOn (has : before.HasValues) (switch : Switch) : (before.turnOn switch).HasValues := by
  cases switch <;> exact { has with }

theorem assign (has : before.HasValues) {switch : Switch} {value : String}
    (assigned : before.assign false switch value = .ok after) : after.HasValues := by
  cases switch
  case stdinLanguage =>
    obtain ⟨got, rfl⟩ := exists_value_of_given assigned
    exact { has with stdinLanguage := nofun }
  case extensions =>
    obtain ⟨got, rfl⟩ := exists_value_of_given assigned
    exact { has with extensions := nofun }
  case ignore =>
    obtain ⟨got, rfl⟩ := exists_value_of_given assigned
    exact { has with ignored := by simp [has.ignored] }
  case workers =>
    obtain ⟨got, rfl⟩ := exists_value_of_given assigned
    exact { has with workers := nofun }
  case namespaceName =>
    obtain ⟨got, rfl⟩ := exists_value_of_given assigned
    exact { has with namespaceName := nofun }
  case moduleName =>
    obtain ⟨got, rfl⟩ := exists_value_of_given assigned
    exact { has with moduleName := nofun }
  case quote =>
    obtain ⟨got, rfl⟩ := exists_value_of_given assigned
    exact { has with quote := nofun }
  all_goals exact Except.ok.inj assigned ▸ has

theorem takePlain {state : ArgumentState} (has : state.arguments.HasValues) (text : String) :
    (state.takePlain text).arguments.HasValues := by
  unfold ArgumentState.takePlain
  split
  · exact has
  · exact { has with }

theorem takeSeparator {state : ArgumentState} (has : state.arguments.HasValues) :
    state.takeSeparator.arguments.HasValues := by
  unfold ArgumentState.takeSeparator
  split <;> exact has

/-- **Going through arguments leaves no switch without its value.** -/
theorem through {state ended : ArgumentState} {tokens : List Token}
    (has : state.arguments.HasValues) (read : state.through false tokens = .ok ended) :
    ended.arguments.HasValues := by
  fun_induction ArgumentState.through state false tokens with
  | case1 state => exact Except.ok.inj read ▸ has
  | case2 state text rest ih => exact ih (has.takePlain text) read
  | case3 state rest ih => exact ih has.takeSeparator read
  | case4 state text rest ih => exact ih has read
  | case6 state switch _ _ _ _ _ assigned ih => exact ih (assign has assigned) read
  | case8 state switch _ _ _ _ _ assigned ih => exact ih (assign has assigned) read
  | case13 state switch _ _ _ _ ih => exact ih (has.turnOn switch) read
  | _ => cases read

end HasValues

/-- **A reader that takes no separator away leaves no switch without its value.** -/
theorem hasValues_of_parse {texts : List String} {arguments : Arguments}
    (parsed : Arguments.parse texts = .ok arguments) : arguments.HasValues := by
  obtain ⟨tokens, _, parsed⟩ := bind_eq_ok_iff.mp parsed
  obtain ⟨ended, read, parsed⟩ := bind_eq_ok_iff.mp parsed
  split at parsed
  · exact Except.ok.inj parsed ▸ hasValues_empty.through read
  · cases parsed

/-- A separator that is attached to a switch is its value. -/
example : Arguments.parse ["--module=--"] = .ok { moduleName := some (.value "--") } := by
  decide +kernel

end Arguments

end Unqualify
