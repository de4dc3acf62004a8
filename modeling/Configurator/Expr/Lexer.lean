import Configurator.Expr.Error
import Configurator.Text
import Configurator.Text.Integer

/-!
# From text to tokens

Blanks separate tokens and `#` ends the text. A string stands between quotes of one kind and knows
the escapes of `Value.escape` and `\'`; a backslash before any other character stands for itself. A
word that starts with a digit or a sign is an integer, decimal or hexadecimal.
-/

namespace Configurator.Expr

open Text (isBlank isLetter isLetterOrNumber)

/-! ## Strings -/

/-- What a backslash and the character behind it stand for. -/
def unescape : Char → List Char
  | 'n' => ['\n']
  | 't' => ['\t']
  | '\\' => ['\\']
  | '"' => ['"']
  | '\'' => ['\'']
  | c => ['\\', c]

/-- The contents of a string up to its closing quote, and what follows that quote. -/
def lexString (quote : Char) : List Char → Option (List Char × List Char)
  | [] => none
  | ['\\'] => none
  | '\\' :: c :: cs => (lexString quote cs).map fun (s, rest) => (unescape c ++ s, rest)
  | c :: cs =>
    if c = quote then some ([], cs) else (lexString quote cs).map fun (s, rest) => (c :: s, rest)

theorem lexString_length_le {quote : Char} {cs s rest : List Char}
    (h : lexString quote cs = some (s, rest)) : rest.length ≤ cs.length := by
  fun_induction lexString quote cs generalizing s rest with
  | case1 | case2 => simp at h
  | case3 c cs ih =>
    obtain ⟨⟨s', rest'⟩, hs, heq⟩ := Option.map_eq_some_iff.1 h
    cases heq
    have := ih hs
    simp only [List.length_cons]
    omega
  | case4 cs =>
    cases h
    simp
  | case5 c cs _ _ _ ih =>
    obtain ⟨⟨s', rest'⟩, hs, heq⟩ := Option.map_eq_some_iff.1 h
    cases heq
    have := ih hs
    simp only [List.length_cons]
    omega

/-! ## Integers -/

/-- An unsigned literal: hexadecimal behind `0x` or `0X`, decimal otherwise. -/
def readMagnitude? : List Char → Option Int
  | '0' :: 'x' :: digits => Text.Integer.read? 16 digits
  | '0' :: 'X' :: digits => Text.Integer.read? 16 digits
  | digits => Text.Integer.read? 10 digits

/-- A literal with or without a sign. The sign is applied to the magnitude, which has to be in range
by itself. -/
def readInteger? : List Char → Option Int
  | '-' :: digits => (readMagnitude? digits).map fun n => -n
  | '+' :: digits => readMagnitude? digits
  | digits => readMagnitude? digits

/-! ## Tokens -/

def isSign (c : Char) : Bool :=
  c == '-' || c == '+'

/-- A character that continues an identifier. -/
def isIdentRest (c : Char) : Bool :=
  isLetterOrNumber c || c == '_'

/-- A character that starts an identifier. -/
def isIdentStart (c : Char) : Bool :=
  isLetter c || c == '_'

/-- The token that starts with `c`, and what follows it; `offset` is where `c` stands. -/
def leadingToken (offset : Nat) (c : Char) (cs : List Char) :
    Except Error (Token × List Char) :=
  match c with
  | '(' => .ok (.leftParen, cs)
  | ')' => .ok (.rightParen, cs)
  | '[' => .ok (.leftBracket, cs)
  | ']' => .ok (.rightBracket, cs)
  | ',' => .ok (.comma, cs)
  | ';' => .ok (.semicolon, cs)
  | '=' =>
    match cs with
    | '=' :: rest => .ok (.equal, rest)
    | _ => .ok (.assign, cs)
  | '!' =>
    match cs with
    | '=' :: rest => .ok (.notEqual, rest)
    | _ => .error (.unexpectedChar '!' offset)
  | _ =>
    if c = '"' ∨ c = '\'' then
      match lexString c cs with
      | some (s, rest) => .ok (.str (String.ofList s), rest)
      | none => .error .unterminatedString
    else if c.isDigit ∨ isSign c then
      let text := c :: cs.takeWhile Char.isAlphanum
      match readInteger? text with
      | some n => .ok (.int n, cs.dropWhile Char.isAlphanum)
      | none => .error (.invalidInteger (String.ofList text))
    else if isIdentStart c then
      .ok (.ident (String.ofList (c :: cs.takeWhile isIdentRest)), cs.dropWhile isIdentRest)
    else .error (.unexpectedChar c offset)

theorem leadingToken_length_le {offset : Nat} {c : Char} {cs rest : List Char} {t : Token}
    (h : leadingToken offset c cs = .ok (t, rest)) : rest.length ≤ cs.length := by
  unfold leadingToken at h
  split at h
  case h_1 | h_2 | h_3 | h_4 | h_5 | h_6 =>
    cases h
    exact Nat.le_refl _
  case h_7 | h_8 => split at h <;> cases h <;> simp
  case h_9 =>
    split at h
    · split at h
      · cases h
        exact lexString_length_le ‹_›
      · cases h
    · split at h
      · dsimp only at h
        split at h
        · cases h
          exact Text.dropWhile_length_le _ _
        · cases h
      · split at h
        · cases h
          exact Text.dropWhile_length_le _ _
        · cases h

/-- The tokens of `cs`, the end of a text of `size` bytes. -/
def lexFrom (size : Nat) (cs : List Char) : Except Error (List Token) :=
  match cs with
  | [] => .ok []
  | c :: rest =>
    if isBlank c then lexFrom size rest
    else if c = '#' then .ok []
    else
      match _h : leadingToken (size - Text.byteSize (c :: rest)) c rest with
      | .error e => .error e
      | .ok (t, after) => (lexFrom size after).map fun ts => t :: ts
termination_by cs.length
decreasing_by
  · simp
  · have := leadingToken_length_le ‹_›
    simp only [List.length_cons]
    omega

/-- The tokens of a text. -/
def lex (src : List Char) : Except Error (List Token) :=
  lexFrom (Text.byteSize src) src

end Configurator.Expr
