import Configurator.Json.Basic
import Configurator.Text.Integer

/-!
# From JSON documents to text

Documents are written with one item to a line, two spaces of indentation for each level, and nothing
between the brackets of what is empty.
-/

namespace Configurator.Json

def hexDigit (n : Nat) : Char :=
  Nat.digitChar n

/-- A character inside a string. Quotes, backslashes and controls are escaped, all else stands for
itself. -/
def escape : Char → List Char
  | '"' => ['\\', '"']
  | '\\' => ['\\', '\\']
  | '\n' => ['\\', 'n']
  | '\r' => ['\\', 'r']
  | '\t' => ['\\', 't']
  | '\x08' => ['\\', 'b']
  | '\x0c' => ['\\', 'f']
  | c =>
    if c.toNat < 0x20 then
      ['\\', 'u', '0', '0', hexDigit (c.toNat / 16), hexDigit (c.toNat % 16)]
    else [c]

def quoted (s : String) : List Char :=
  '"' :: s.toList.flatMap escape ++ ['"']

/-- A new line at a level. -/
def newLine (level : Nat) : List Char :=
  '\n' :: List.replicate (2 * level) ' '

mutual

/-- The text of a document at a level. -/
def chars (level : Nat) : Json → List Char
  | .null => ['n', 'u', 'l', 'l']
  | .bool true => ['t', 'r', 'u', 'e']
  | .bool false => ['f', 'a', 'l', 's', 'e']
  | .number n => Text.Integer.write (n.getD 0)
  | .string s => quoted (s.getD "")
  | .array [] => ['[', ']']
  | .array (j :: js) =>
    '[' :: newLine (level + 1) ++ chars (level + 1) j ++ charsOfItems (level + 1) js
      ++ newLine level ++ [']']
  | .object [] => ['{', '}']
  | .object ((name, j) :: ms) =>
    '{' :: newLine (level + 1) ++ quoted (name.getD "") ++ [':', ' '] ++ chars (level + 1) j
      ++ charsOfMembers (level + 1) ms ++ newLine level ++ ['}']

/-- Items behind the first one. -/
def charsOfItems (level : Nat) : List Json → List Char
  | [] => []
  | j :: js => ',' :: newLine level ++ chars level j ++ charsOfItems level js

/-- Members behind the first one. -/
def charsOfMembers (level : Nat) : List (Literal × Json) → List Char
  | [] => []
  | (name, j) :: ms =>
    ',' :: newLine level ++ quoted (name.getD "") ++ [':', ' '] ++ chars level j
      ++ charsOfMembers level ms

end

def pretty (j : Json) : String :=
  String.ofList (chars 0 j)

end Configurator.Json
