import Configurator.Text
import Configurator.Text.Integer

/-!
# Values of directives

A directive gives a key a value: a truth value, an integer, a string, or a tuple of values. A value
can be seen as a truth value, an integer, or a list of strings, and `Value.text` writes it as a
directive would.
-/

namespace Configurator

inductive Value where
  | bool (b : Bool)
  | int (n : Int)
  | str (s : String)
  | tuple (items : List Value)
  deriving Inhabited, Repr

namespace Value

/-! ## Equality -/

mutual

def decEq : (v w : Value) → Decidable (v = w)
  | .bool b, .bool c => decidable_of_iff (b = c) (by simp)
  | .int m, .int n => decidable_of_iff (m = n) (by simp)
  | .str s, .str t => decidable_of_iff (s = t) (by simp)
  | .tuple vs, .tuple ws =>
    match decEqAll vs ws with
    | isTrue h => isTrue (by rw [h])
    | isFalse h => isFalse (by simpa using h)
  | .bool _, .int _ | .bool _, .str _ | .bool _, .tuple _ => isFalse (by simp)
  | .int _, .bool _ | .int _, .str _ | .int _, .tuple _ => isFalse (by simp)
  | .str _, .bool _ | .str _, .int _ | .str _, .tuple _ => isFalse (by simp)
  | .tuple _, .bool _ | .tuple _, .int _ | .tuple _, .str _ => isFalse (by simp)

def decEqAll : (vs ws : List Value) → Decidable (vs = ws)
  | [], [] => isTrue rfl
  | [], _ :: _ => isFalse (by simp)
  | _ :: _, [] => isFalse (by simp)
  | v :: vs, w :: ws =>
    match decEq v w, decEqAll vs ws with
    | isTrue h, isTrue hs => isTrue (by rw [h, hs])
    | isFalse h, _ => isFalse (by simp [h])
    | _, isFalse hs => isFalse (by simp [hs])

end

instance : DecidableEq Value := decEq

/-! ## Views -/

/-- Zero, the empty string and the empty tuple count as false. -/
def truthy : Value → Bool
  | .bool b => b
  | .int n => n ≠ 0
  | .str s => s ≠ ""
  | .tuple items => !items.isEmpty

def str? : Value → Option String
  | .str s => some s
  | _ => none

/-- A truth value is 0 or 1, and a string is the decimal integer that it writes between blanks. -/
def int? : Value → Option Int
  | .int n => some n
  | .bool b => some (if b then 1 else 0)
  | .str s => Text.Integer.read? 10 (Text.trim s.toList)
  | .tuple _ => none

/-- The strings of a tuple that holds nothing else; a string alone is a list of one. -/
def strings? : Value → Option (List String)
  | .str s => some [s]
  | .tuple items => items.mapM str?
  | _ => none

/-- The word that errors use for the kind of a value. -/
def kind : Value → String
  | .bool _ => "bool"
  | .int _ => "int"
  | .str _ => "string"
  | .tuple _ => "tuple"

/-! ## Written form -/

/-- One character between the quotes of a string: quotes, backslashes, line feeds and tabs are
escaped. -/
def escape : Char → List Char
  | '"' => ['\\', '"']
  | '\\' => ['\\', '\\']
  | '\n' => ['\\', 'n']
  | '\t' => ['\\', 't']
  | c => [c]

def quoted (s : String) : List Char :=
  '"' :: s.toList.flatMap escape ++ ['"']

mutual

/-- The literal of a value: a tuple of one item ends in a comma. -/
def chars : Value → List Char
  | .bool true => "True".toList
  | .bool false => "False".toList
  | .int n => Text.Integer.write n
  | .str s => quoted s
  | .tuple [] => "()".toList
  | .tuple [v] => '(' :: v.chars ++ ",)".toList
  | .tuple (v :: w :: vs) => '(' :: v.chars ++ charsAfter (w :: vs) ++ [')']

/-- Items of a tuple after the first, each behind a comma and a space. -/
def charsAfter : List Value → List Char
  | [] => []
  | v :: vs => ',' :: ' ' :: v.chars ++ charsAfter vs

end

def text (v : Value) : String :=
  String.ofList v.chars

end Value

end Configurator
