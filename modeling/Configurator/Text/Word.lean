import Configurator.Text.Alphabetic
import Configurator.Text.Mark
import Configurator.Text.Numeric

/-!
# Letters, digits and word characters

Three classes that names are made of. On ASCII they are given by rule and beyond it by the tables of
Unicode properties: `isLetter` starts a name in a directive, `isLetterOrNumber` continues it, and
`isWordChar` makes up the name of a documented define. Names in directives go by Unicode 17, and
`isWordChar` and `isDecimalDigit` by Unicode 16.
-/

namespace Configurator.Text

/-- Whether `n` lies in one of the ranges, ends included. -/
def inRanges (ranges : List (Nat × Nat)) (n : Nat) : Bool :=
  ranges.any fun (first, last) => first ≤ n && n ≤ last

def isAscii (c : Char) : Bool :=
  c.toNat < 128

/-- A letter: the property Alphabetic of Unicode 17. -/
def isLetter (c : Char) : Bool :=
  if isAscii c then c.isAlpha
  else inRanges alphabeticRanges c.toNat || inRanges newerAlphabeticRanges c.toNat

/-- A decimal digit of any script: the category Nd of Unicode 16. -/
def isDecimalDigit (c : Char) : Bool :=
  if isAscii c then c.isDigit else inRanges decimalDigitRanges c.toNat

/-- A number: the categories Nd, Nl and No of Unicode 17. -/
def isNumber (c : Char) : Bool :=
  if isAscii c then c.isDigit
  else inRanges decimalDigitRanges c.toNat || inRanges newerNumberRanges c.toNat
    || inRanges otherNumberRanges c.toNat

def isLetterOrNumber (c : Char) : Bool :=
  isLetter c || isNumber c

/-- Punctuation that joins words (the category Pc) beyond the underscore. -/
def isConnector (c : Char) : Bool :=
  let n := c.toNat
  n == 0x203f || n == 0x2040 || n == 0x2054 || n == 0xfe33 || n == 0xfe34
    || (0xfe4d ≤ n && n ≤ 0xfe4f) || n == 0xff3f

/-- The zero-width joiner and non-joiner. -/
def isJoinControl (c : Char) : Bool :=
  c.toNat == 0x200c || c.toNat == 0x200d

/-- A word character: letters, marks, decimal digits, connectors and join controls. -/
def isWordChar (c : Char) : Bool :=
  if isAscii c then c.isAlphanum || c == '_'
  else inRanges alphabeticRanges c.toNat || inRanges markRanges c.toNat
    || inRanges decimalDigitRanges c.toNat || isConnector c || isJoinControl c

end Configurator.Text
