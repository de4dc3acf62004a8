import Configurator.Error
import Configurator.Header.Parameter
import Configurator.ValueList

/-!
# Values that parameters take

A new value for a parameter comes as text. Its type decides whether it takes the value, and in which
form the value is kept.
-/

namespace Configurator.Parameter

/-- The form in which a boolean keeps a word for true or false. -/
def booleanForm? (text : String) : Option String :=
  let word := String.ofList (Text.asciiLower (Text.trim text.toList))
  if word ∈ ["1", "true", "yes", "on"] then some "1"
  else if word ∈ ["0", "false", "no", "off"] then some "0"
  else none

/-- The opposite of an integer of 64 bits. The least one is its own opposite. -/
def opposite (n : Int) : Int :=
  Int.bmod (-n) 0x10000000000000000

/-- The integer that a text writes, in decimal or behind `0x` in hexadecimal digits. A minus may stand
in front of either, and in addition to the sign that the digits may have themselves. -/
def readInteger? (text : List Char) : Option Int :=
  let magnitude? (cs : List Char) : Option Int :=
    match cs with
    | '0' :: 'x' :: digits => Text.Integer.read? 16 digits
    | '0' :: 'X' :: digits => Text.Integer.read? 16 digits
    | digits => Text.Integer.read? 10 digits
  match Text.trim text with
  | '-' :: rest => (magnitude? rest).map opposite
  | rest => magnitude? rest

/-- What is wrong with an integer that is out of bounds. -/
def outOfBounds? (p : Parameter) (n : Int) : Option Rejection :=
  match p.min.filter (n < ·), p.max.filter (· < n) with
  | some min, _ => some (.belowMinimum min)
  | none, some max => some (.aboveMaximum max)
  | none, none => none

/-- The parameter with an integer as its value. Suffixes that it has or gets stay. -/
def acceptInteger (p : Parameter) (text : String) : Except Rejection Parameter :=
  let literal := IntegerLiteral.ofValue (String.ofList (Text.trim text.toList))
  match readInteger? literal.digits.toList with
  | none => .error .notInteger
  | some n =>
    match p.outOfBounds? n with
    | some rejection => .error rejection
    | none =>
      .ok { p with
        value := literal.digits
        long := p.long || literal.long
        unsigned := p.unsigned || literal.unsigned }

/-- The parameter with a new value, if it takes that. `choices` is the value list that it names, if that
is known. -/
def accept (p : Parameter) (choices : Option ValueList) (text : String) :
    Except Rejection Parameter :=
  let trimmed := String.ofList (Text.trim text.toList)
  match p.type with
  | .autoenabled => .error .followsModule
  | .boolean =>
    match booleanForm? text with
    | some value => .ok { p with value }
    | none => .error .notBoolean
  | .integer => p.acceptInteger text
  | .enum =>
    match choices with
    | some list =>
      if trimmed ∈ list.values then .ok { p with value := trimmed }
      else .error (.notListed list.values)
    | none => .ok { p with value := trimmed }
  | .text => .ok { p with value := trimmed }

end Configurator.Parameter
