import Configurator.Expr.Token

/-!
# What can be wrong with a directive expression

One cause per constructor, for reading and for evaluation, and the wording of each in
`Error.message`.
-/

namespace Configurator.Expr

/-- What the reader was looking for when it met another token. -/
inductive Expectation where
  | identifier
  | operand
  | token (t : Token)
  | endOfExpression
  deriving DecidableEq, Inhabited, Repr

def Expectation.text : Expectation → String
  | .identifier => "identifier"
  | .operand => "operand"
  | .token t => t.text
  | .endOfExpression => "end of expression"

inductive Error where
  /-- A character that starts no token, with its byte offset. -/
  | unexpectedChar (c : Char) (offset : Nat)
  | unterminatedString
  /-- `none` stands for the end of the input. -/
  | expected (what : Expectation) (found : Option Token)
  | unknownIdentifier (name : String)
  | invalidInteger (text : String)
  /-- The operator `in` on a value of a kind that it does not apply to. -/
  | membership (kind : String)
  deriving DecidableEq, Inhabited, Repr

def Error.message : Error → String
  | .unexpectedChar c offset =>
    "unexpected character '" ++ c.toString ++ "' at offset " ++ toString offset
  | .unterminatedString => "unterminated string literal"
  | .expected what found =>
    "expected " ++ what.text ++ ", found " ++ (found.map Token.text).getD "end of input"
  | .unknownIdentifier name => "unknown identifier '" ++ name ++ "'"
  | .invalidInteger text => "invalid integer literal '" ++ text ++ "'"
  | .membership kind => "'in' cannot be applied to " ++ kind

end Configurator.Expr
