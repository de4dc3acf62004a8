import Configurator.Expr.Parser
import Configurator.HarvardMode

/-!
# Directive lines

A comment line that holds the marker `$WIZ$` is a directive: what follows the marker is a list of
assignments. What can be wrong with a directive is an `Error`, which says in which line of its
comment and why.
-/

namespace Configurator.Directive

/-- The sign that makes a comment line a directive. -/
def marker : String := "$WIZ$"

/-- What is wrong with a directive. -/
inductive Fault where
  /-- The assignments cannot be read or evaluated. -/
  | expression (e : Expr.Error)
  | notString (key : String) (value : Value)
  | notStrings (key : String)
  | notInteger (key : String) (value : Value)
  | unknownMode (text : String)
  deriving Inhabited, Repr

def Fault.message : Fault → String
  | .expression e => e.message
  | .notString key value => key ++ " must be a string, got " ++ value.text
  | .notStrings key => key ++ " must be a string or a tuple of strings"
  | .notInteger key value => key ++ " must be an integer, got " ++ value.text
  | .unknownMode text => HarvardMode.unknownMessage text

/-- A fault with the index of its line in the comment, and the text at fault. -/
structure Error where
  line : Nat
  text : String
  fault : Fault
  deriving Inhabited, Repr

def Error.message (e : Error) : String :=
  "line " ++ toString e.line ++ ": " ++ e.text ++ " (" ++ e.fault.message ++ ")"

def Error.of (line : Nat) (text : List Char) (fault : Fault) : Error :=
  ⟨line, String.ofList (Text.trim text), fault⟩

/-- The text before the marker and the assignments behind it, if the line is a directive. -/
def split? (line : String) : Option (String × String) :=
  (Text.splitAtFirst? marker.toList line.toList).map fun (before, behind) =>
    (String.ofList before, String.ofList (Text.trim behind))

def isDirective (line : String) : Bool :=
  (split? line).isSome

/-- One key of a directive with its value and the line that it comes from. -/
structure Assigned where
  index : Nat
  line : String
  key : String
  value : Value
  deriving Inhabited, Repr

/-- The assignments of the line with an index; none if it is not a directive. -/
def assignments (index : Nat) (line : String) : Except Error (List Assigned) :=
  match Text.splitAtFirst? marker.toList line.toList with
  | none => .ok []
  | some (_, behind) =>
    match Expr.evalAssignments (Text.trim behind) with
    | .ok pairs => .ok (pairs.map fun (key, value) => ⟨index, line, key, value⟩)
    | .error e => .error (.of index (marker.toList ++ behind) (.expression e))

namespace Assigned

def fail {α : Type} (a : Assigned) (fault : Fault) : Except Error α :=
  .error (.of a.index a.line.toList fault)

/-- The value, which has to be a string. -/
def string (a : Assigned) : Except Error String :=
  match a.value with
  | .str s => .ok s
  | v => a.fail (.notString a.key v)

/-- The value, which has to be a string or a tuple of strings. -/
def strings (a : Assigned) : Except Error (List String) :=
  match a.value.strings? with
  | some items => .ok items
  | none => a.fail (.notStrings a.key)

/-- The value, which has to denote an integer. -/
def integer (a : Assigned) : Except Error Int :=
  match a.value.int? with
  | some n => .ok n
  | none => a.fail (.notInteger a.key a.value)

end Assigned

/-- The directive line that gives a key a value. -/
def render (key : String) (value : Value) : String :=
  marker ++ " " ++ key ++ " = " ++ value.text

end Configurator.Directive
