import Unqualify.Import.Change
import Unqualify.Replacement
import Unqualify.Syntax.Fault

/-!
# Transforming a source unit

A unit is surveyed first: it is parsed, and the references in it and the members they name are
collected. The survey then gives the edits, those of the imports before those of the references, and
they are applied in one pass. The outcome is parsed once more, and it counts only when it is free of
faults.

The parser is a parameter. For a text it answers with the tree and with a test for texts that were
edited from this one, which is how a parser is asked again about a changed text.
-/

set_option autoImplicit false

namespace Unqualify

/-- What a parser says of a text. -/
structure Parsed where
  root : Node
  /-- Whether a text that was edited from this one is free of faults. -/
  accepts : String → Bool

/-- A parser: it is told the name of a unit, its language and its text. -/
abbrev Parser := String → Language → String → Parsed

/-- A text to be transformed, with the name it is reported by. -/
structure SourceUnit where
  file : String := "<source>"
  language : Language := .tsx
  text : String
  deriving DecidableEq, Repr

/-- Why a unit is not transformed. -/
inductive UnitFailure where
  /-- The text has a fault at a place. -/
  | syntaxFault (file : String) (place : Place) (language : Language)
  /-- A carried alias takes the name of a member. -/
  | clash (found : Clash)
  /-- The edits do not fit together. -/
  | conflict (found : EditConflict)
  /-- The edited text has a fault. -/
  | noLongerParses (file : String) (language : Language)
  /-- The edited octets are not the form of a text. -/
  | undecodable (fault : Utf8.Fault)
  deriving DecidableEq, Repr

/-- The wording of a failure. Rows and columns are shown counted from one. -/
def UnitFailure.message : UnitFailure → String
  | .syntaxFault file place language =>
      file ++ ":" ++ toString (place.row + 1) ++ ":" ++ toString (place.column + 1) ++
        ": syntax error while parsing as " ++ language.name
  | .clash found => found.message
  | .conflict found => found.message
  | .noLongerParses file language =>
      file ++ ": rewritten source no longer parses as " ++ language.name
  | .undecodable fault => fault.message

/-- The outcome of a transform. -/
structure Transformed where
  source : String
  output : String
  members : MemberSet := {}
  removedImports : Nat := 0
  /-- The number of references that were replaced. -/
  replaced : Nat := 0
  deriving DecidableEq, Repr

/-- Whether the text is another one than before. -/
def Transformed.changed (transformed : Transformed) : Bool :=
  transformed.output != transformed.source

/-- What is known of a unit before anything is changed. -/
structure Survey where
  unit : SourceUnit
  parsed : Parsed
  references : List Reference
  members : MemberSet

namespace Survey

/-- The octets of the unit. -/
def source (survey : Survey) : Bytes :=
  Utf8.encode survey.unit.text

/-- Applies the edits of the imports and of the references, and checks the outcome. -/
def transform (survey : Survey) (options : Options) : Except UnitFailure Transformed := do
  let imports ←
    (ImportChange.plan survey.source survey.parsed.root survey.members options).mapError .clash
  let bare := Reference.edits survey.references survey.members
  let edits := imports.edits ++ bare
  if edits.isEmpty then
    return { source := survey.unit.text, output := survey.unit.text, members := survey.members }
  let octets ← (Edit.applyAll survey.source edits).mapError .conflict
  let output ← (Utf8.decode octets).mapError .undecodable
  if survey.parsed.accepts output then
    return { source := survey.unit.text, output, members := survey.members
             removedImports := imports.removed, replaced := bare.length }
  else
    throw (.noLongerParses survey.unit.file survey.unit.language)

end Survey

namespace SourceUnit

/-- Parses a unit and collects what it reaches through the namespace. -/
def survey (unit : SourceUnit) (parser : Parser) (options : Options) :
    Except UnitFailure Survey :=
  let parsed := parser unit.file unit.language unit.text
  let source := Utf8.encode unit.text
  if parsed.root.label.faulty then
    let place :=
      match parsed.root.firstFault? with
      | some fault => Place.ofOffset source fault.start
      | none => ⟨0, 0⟩
    .error (.syntaxFault unit.file place unit.language)
  else
    let references := Reference.find source unit.language options.namespaceName parsed.root
    .ok ⟨unit, parsed, references, MemberSet.ofReferences references⟩

/-- Replaces the references of a unit by named imports. -/
def transform (unit : SourceUnit) (parser : Parser) (options : Options) :
    Except UnitFailure Transformed := do
  let survey ← unit.survey parser options
  survey.transform options

end SourceUnit

end Unqualify
