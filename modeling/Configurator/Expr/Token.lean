/-!
# Tokens of directive expressions

Brackets, separators and operators are single tokens; strings and integers carry what they denote,
and every other word is an identifier, keywords included.
-/

namespace Configurator.Expr

inductive Token where
  | str (s : String)
  | int (n : Int)
  | ident (name : String)
  | leftParen
  | rightParen
  | leftBracket
  | rightBracket
  | comma
  | assign
  | semicolon
  | equal
  | notEqual
  deriving DecidableEq, Inhabited, Repr

/-- How an error names a token that it did not expect. -/
def Token.text : Token → String
  | .str s => "string \"" ++ s ++ "\""
  | .int n => "integer " ++ toString n
  | .ident name => "'" ++ name ++ "'"
  | .leftParen => "'('"
  | .rightParen => "')'"
  | .leftBracket => "'['"
  | .rightBracket => "']'"
  | .comma => "','"
  | .assign => "'='"
  | .semicolon => "';'"
  | .equal => "'=='"
  | .notEqual => "'!='"

end Configurator.Expr
