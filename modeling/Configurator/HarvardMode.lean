import Configurator.Text

/-!
# Memories of a harvard CPU

A CPU with separate memories for programs and data compiles a source for one of them or for both.
-/

namespace Configurator

inductive HarvardMode where
  | both
  | program
  | data
  deriving DecidableEq, Inhabited, Repr

namespace HarvardMode

def name : HarvardMode → String
  | .both => "both"
  | .program => "pgm"
  | .data => "data"

/-- The mode that a word names in any letter case. No letter beyond ASCII has one of these words'
letters as its lower case. -/
def ofName? (text : String) : Option HarvardMode :=
  let word := String.ofList (Text.asciiLower text.toList)
  if word = "both" then some .both
  else if word = "pgm" ∨ word = "program" then some .program
  else if word = "data" then some .data
  else none

/-- What is said of a word that names no mode. -/
def unknownMessage (text : String) : String :=
  "Unknown harvard mode: " ++ text

end HarvardMode

end Configurator
