/-!
# JSON documents

The descriptors of projects and the settings of the tool are JSON texts. A document keeps its members
in the order of the text, repeated names included, because a record may not repeat a field. Of
numbers only integers matter.
-/

namespace Configurator

/-- A string of a document; `none` stands for one whose escapes name half of a surrogate pair, which is
well formed but no text. -/
abbrev Json.Literal := Option String

inductive Json where
  | null
  | bool (b : Bool)
  /-- `none` stands for a number that is not written as an integer. -/
  | number (n : Option Int)
  | string (s : Json.Literal)
  | array (items : List Json)
  | object (members : List (Json.Literal × Json))
  deriving Inhabited, Repr

namespace Json

def text (s : String) : Json :=
  .string (some s)

def int (n : Int) : Json :=
  .number (some n)

def texts (items : List String) : Json :=
  .array (items.map text)

/-- An object with members under plain names. -/
def record (members : List (String × Json)) : Json :=
  .object (members.map fun (name, value) => (some name, value))

end Json

end Configurator
