/-!
# Blank characters

A character is blank when Unicode counts it as white space. All trimming, and every gap between the
words of a directive, goes by this class; it is wider than the four characters of
`Char.isWhitespace`.
-/

namespace Configurator.Text

/-- White space as Unicode defines it: the ASCII controls from tab to carriage return, the space,
and the spaces and separators beyond ASCII. -/
def isBlank (c : Char) : Bool :=
  let n := c.toNat
  (0x9 ≤ n && n ≤ 0xd) || n == 0x20 || n == 0x85 || n == 0xa0 || n == 0x1680
    || (0x2000 ≤ n && n ≤ 0x200a) || n == 0x2028 || n == 0x2029 || n == 0x202f || n == 0x205f
    || n == 0x3000

/-- Spaces and tabs: the blanks that may stand between the parts of one line. -/
def isInlineBlank (c : Char) : Bool :=
  c == ' ' || c == '\t'

theorem isBlank_of_isInlineBlank {c : Char} (h : isInlineBlank c = true) : isBlank c = true := by
  simp only [isInlineBlank, Bool.or_eq_true, beq_iff_eq] at h
  rcases h with rfl | rfl <;> rfl

end Configurator.Text
