import Configurator.Text

/-!
# Template families

Which templates a project is generated from depends on the version of its descriptor.
-/

namespace Configurator

inductive Template.Family where
  /-- Version 1 and before: program memory and module constants have no place of their own. -/
  | legacy
  | current
  deriving DecidableEq, Inhabited, Repr

namespace Template.Family

def ofVersion (version : Nat) : Family :=
  if version ≤ 1 then .legacy else .current

def name : Family → String
  | .legacy => "legacy"
  | .current => "current"

/-- The family that a word names in any letter case. -/
def ofName? (text : String) : Option Family :=
  let word := String.ofList (Text.asciiLower text.toList)
  if word = "legacy" then some .legacy
  else if word = "current" then some .current
  else none

/-- What is said of a word that names no family. -/
def unknownMessage (text : String) : String :=
  "Unknown template family: " ++ text

/-- Whether program memory and module constants have tokens. -/
def hasExtendedTokens (f : Family) : Bool :=
  f = .current

end Template.Family

end Configurator
