import Configurator.Text

/-!
# Stretches of a text

A span says where a part of a text stands, counted in characters. The outside counts in bytes of the
UTF-8 form, and `Span.bytes` converts.
-/

namespace Configurator

/-- From the character at `start` up to the one before `stop`. -/
structure Span where
  start : Nat
  stop : Nat
  deriving DecidableEq, Inhabited, Repr

/-- The byte offset of the `i`-th character of a text. -/
def Text.byteOffset (text : List Char) (i : Nat) : Nat :=
  byteSize (text.take i)

/-- First byte and end of a span in the UTF-8 form of its text. -/
def Span.bytes (text : List Char) (s : Span) : Nat × Nat :=
  (Text.byteOffset text s.start, Text.byteOffset text s.stop)

/-- The characters that a span covers. -/
def Span.slice (text : List Char) (s : Span) : List Char :=
  (text.take s.stop).drop s.start

end Configurator
