/-!
# Languages of source units

The three grammars a unit can be written in, the names they go by, and the file suffixes that
choose them.
-/

set_option autoImplicit false

namespace Unqualify

/-- A grammar for source units. -/
inductive Language where
  | javascript
  | typescript
  | tsx
  deriving DecidableEq, Repr

namespace Language

/-- Every language, in the order in which choices are listed. -/
def all : List Language := [.javascript, .typescript, .tsx]

/-- The name a language goes by. -/
def name : Language → String
  | .javascript => "javascript"
  | .typescript => "typescript"
  | .tsx => "tsx"

/-- The language of a name. -/
def ofName? (name : String) : Option Language :=
  all.find? fun language => language.name == name

/-- The language that a file suffix, dot included, stands for. -/
def ofSuffix? : String → Option Language
  | ".js" => some .javascript
  | ".jsx" => some .javascript
  | ".ts" => some .typescript
  | ".tsx" => some .tsx
  | _ => none

/-- Whether the grammar has type syntax. -/
def hasTypes : Language → Bool
  | .javascript => false
  | .typescript => true
  | .tsx => true

/-- Whether the grammar has markup elements. -/
def hasMarkup : Language → Bool
  | .javascript => true
  | .typescript => false
  | .tsx => true

end Language

end Unqualify
