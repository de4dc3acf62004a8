import Configurator.Header.Comment
import Configurator.Comment.Define

/-!
# Parameters

A documented define of a header is a parameter: it has a type, a value, and restrictions from its
comment. An integer keeps the suffixes `U` and `L` of its literal apart from the digits.
-/

namespace Configurator

inductive ParamType where
  | boolean
  | enum
  | integer
  /-- Follows the enabled state of the module that the header belongs to. -/
  | autoenabled
  | text
  deriving DecidableEq, Inhabited, Repr

namespace ParamType

/-- The type that a directive names. -/
def ofDirective? : String → Option ParamType
  | "boolean" => some .boolean
  | "bool" => some .boolean
  | "enum" => some .enum
  | "int" => some .integer
  | "integer" => some .integer
  | "autoenabled" => some .autoenabled
  | "text" => some .text
  | "string" => some .text
  | _ => none

def name : ParamType → String
  | .boolean => "boolean"
  | .enum => "enum"
  | .integer => "int"
  | .autoenabled => "autoenabled"
  | .text => "text"

/-- Decimal digits with at most one `U` and one `L` behind them, in this order. -/
def isIntegerLiteral (cs : List Char) : Bool :=
  let suffix := cs.dropWhile Text.isDecimalDigit
  suffix.length < cs.length
    && (suffix = [] || suffix = ['U'] || suffix = ['L'] || suffix = ['U', 'L'])

/-- The type of a parameter whose directives name none: a value list makes it an enum, bounds or the
shape of its value an integer. -/
def infer (value : String) (hasValueList hasBounds : Bool) : ParamType :=
  if hasValueList then .enum
  else if hasBounds || isIntegerLiteral (Text.trim value.toList) then .integer
  else .text

end ParamType

/-- An integer literal without its suffixes, and which suffixes it had. -/
structure IntegerLiteral where
  digits : String
  unsigned : Bool
  long : Bool
  deriving DecidableEq, Inhabited, Repr

namespace IntegerLiteral

/-- Takes suffixes off a literal that is given from its end, as long as something remains. -/
def takeSuffixes : (reversed : List Char) → (unsigned long : Bool) → List Char × Bool × Bool
  | 'L' :: c :: cs, unsigned, _ => takeSuffixes (c :: cs) unsigned true
  | 'U' :: c :: cs, _, long => takeSuffixes (c :: cs) true long
  | cs, unsigned, long => (cs, unsigned, long)

def isHexDigit (c : Char) : Bool :=
  (Text.Integer.digitIn? 16 c).isSome

/-- Whether a text starts like a number, signs and parentheses in front of it aside. -/
def looksNumeric (cs : List Char) : Bool :=
  (cs.dropWhile fun c => c == '-' || c == '(').head?.any Char.isDigit

/-- Takes the suffixes off a value. A value that is no number without them, such as a name that ends
in one of these letters, stays as it is. -/
def ofValue (value : String) : IntegerLiteral :=
  let (reversed, unsigned, long) := takeSuffixes (Text.trimEnd value.toList).reverse false false
  if reversed.head?.any isHexDigit && looksNumeric reversed.reverse then
    ⟨String.ofList reversed.reverse, unsigned, long⟩
  else ⟨value, false, false⟩

end IntegerLiteral

structure Parameter where
  name : String
  /-- As in the source, but without the suffixes of an integer. -/
  value : String
  type : ParamType
  min : Option Int
  max : Option Int
  long : Bool
  unsigned : Bool
  valueList : Option String
  /-- Modules that the parameter requires while it is a boolean that is set. -/
  conditionalDeps : List String
  supports : Option String
  brief : String
  description : String
  extra : NameMap Value
  /-- Where the value stands in the header. -/
  span : Span
  deriving DecidableEq, Inhabited, Repr

namespace Parameter

/-- Whether a text counts as true: it does unless it is blank, `0` or `false` in any letter case. -/
def isTrueText (text : String) : Bool :=
  let word := Text.trim text.toList
  !(word = [] || word = ['0'] || Text.asciiLower word = ['f', 'a', 'l', 's', 'e'])

/-- Whether a parameter is a boolean with a true value. -/
def isSet (p : Parameter) : Bool :=
  p.type = .boolean && isTrueText p.value

/-- The conditional dependencies that are in force. -/
def activeDeps (p : Parameter) : List String :=
  if p.isSet then p.conditionalDeps else []

/-- The value as it stands in a header, an integer with its suffixes. -/
def rendered (p : Parameter) : String :=
  if p.type = .integer then
    p.value ++ (if p.unsigned then "U" else "") ++ (if p.long then "L" else "")
  else p.value

/-- The parameter that a define and its comment declare. -/
def ofDefine (d : Comment.Define) : Except Directive.Error Parameter := do
  let comment ← Header.Comment.ofLines d.comment
  let directives := comment.directives
  let type := (directives.kind.bind ParamType.ofDirective?).getD
    (ParamType.infer d.value directives.valueList.isSome
      (directives.min.isSome || directives.max.isSome))
  let literal : IntegerLiteral :=
    if type = .integer then .ofValue d.value else ⟨d.value, false, false⟩
  pure
    { name := d.name
      value := literal.digits
      type
      min := directives.min
      max := directives.max
      long := directives.long || literal.long
      unsigned := directives.unsigned || literal.unsigned
      valueList := directives.valueList
      conditionalDeps := directives.conditionalDeps
      supports := directives.supports
      brief := comment.brief
      description := comment.description
      extra := directives.extra
      span := d.span }

theorem name_ofDefine {d : Comment.Define} {p : Parameter} (h : ofDefine d = .ok p) :
    p.name = d.name := by
  unfold ofDefine at h
  cases hc : Header.Comment.ofLines d.comment <;> rw [hc] at h <;> cases h
  rfl

end Parameter

end Configurator
