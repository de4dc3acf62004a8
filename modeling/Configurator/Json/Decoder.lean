import Configurator.Json.Parser
import Configurator.NameMap

/-!
# Records in JSON documents

Reading of documents whose form is known. A record is an object whose fields may come in any order,
each at most once and among others that do not count, or an array of its fields in their own order, of
which the last may be missing.
-/

namespace Configurator.Json

/-- Reads a document, or says what is wrong with it. -/
abbrev Decoder (α : Type) := Json → Except String α

namespace Decoder

def string : Decoder String
  | .string (some s) => .ok s
  | _ => .error "expected a string"

/-- An integer of 32 bits without a sign. -/
def word32 : Decoder Nat
  | .number (some n) =>
    if 0 ≤ n ∧ n < 0x100000000 then .ok n.toNat else .error "number out of range"
  | _ => .error "expected an integer"

def list {α : Type} (item : Decoder α) : Decoder (List α)
  | .array items => items.mapM item
  | _ => .error "expected an array"

/-- Of members with one name the last one counts. -/
def map {α : Type} (item : Decoder α) : Decoder (NameMap α)
  | .object members => do
    let entries ← members.mapM fun (name, j) =>
      match name with
      | some name => do pure (name, ← item j)
      | none => .error "expected a name"
    pure (.ofList entries)
  | _ => .error "expected an object"

/-- `null`, or what another decoder reads. -/
def optional {α : Type} (item : Decoder α) : Decoder (Option α)
  | .null => .ok none
  | j => (item j).map some

end Decoder

/-! ## Records -/

/-- The fields of a record that are there, by name. -/
abbrev Fields := List (String × Json)

/-- The fields with the given names in a document. -/
def fields (names : List String) : Decoder Fields
  | .object members => do
    let named ← members.mapM fun (name, j) =>
      match name with
      | some name => Except.ok (name, j)
      | none => .error "expected a name"
    let known := named.filter fun (name, _) => name ∈ names
    match names.find? fun name => 1 < known.countP (·.1 = name) with
    | some name => .error ("duplicate field " ++ name)
    | none => .ok known
  | .array items =>
    if names.length < items.length then .error "trailing items" else .ok (names.zip items)
  | _ => .error "expected an object"

namespace Fields

/-- A field that has to be there. -/
def required {α : Type} (fs : Fields) (name : String) (item : Decoder α) : Except String α :=
  match fs.lookup name with
  | some j => item j
  | none => .error ("missing field " ++ name)

/-- A field that may be missing. -/
def orElse {α : Type} (fs : Fields) (name : String) (default : α) (item : Decoder α) :
    Except String α :=
  match fs.lookup name with
  | some j => item j
  | none => .ok default

end Fields

/-- Reads a text as a document of a known form. -/
def decode {α : Type} (item : Decoder α) (text : String) : Except String α :=
  match parse? text with
  | some j => item j
  | none => .error "malformed text"

end Configurator.Json
