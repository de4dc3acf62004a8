import Configurator.Expr.Error
import Configurator.Value

/-!
# Directive expressions

Literals, identifiers and tuples under `not`, `and`, `or`, membership and equality. `eval` gives an
expression its value where an environment gives identifiers theirs.
-/

namespace Configurator

inductive Expr where
  | str (s : String)
  | int (n : Int)
  | bool (b : Bool)
  | ident (name : String)
  | tuple (items : List Expr)
  | not (e : Expr)
  | and (lhs rhs : Expr)
  | or (lhs rhs : Expr)
  | mem (item container : Expr) (negated : Bool)
  | eq (lhs rhs : Expr) (negated : Bool)
  deriving Inhabited, Repr

namespace Expr

/-- What identifiers stand for. -/
abbrev Environment := String → Option Value

/-- The environment without identifiers. -/
def Environment.empty : Environment :=
  fun _ => none

/-- Whether a value is an item of a tuple, or a string a part of another. -/
def member (item : Value) : (container : Value) → Except Error Bool
  | .tuple items => .ok (decide (item ∈ items))
  | .str hay =>
    match item with
    | .str needle => .ok (Text.contains needle.toList hay.toList)
    | other => .error (.membership other.kind)
  | other => .error (.membership other.kind)

mutual

/-- The value of an expression. `and` and `or` leave their right side alone when the left one decides,
and always give a truth value. -/
def eval (env : Environment) : Expr → Except Error Value
  | .str s => .ok (.str s)
  | .int n => .ok (.int n)
  | .bool b => .ok (.bool b)
  | .ident name =>
    match env name with
    | some v => .ok v
    | none => .error (.unknownIdentifier name)
  | .tuple items =>
    match evalAll env items with
    | .ok vs => .ok (.tuple vs)
    | .error e => .error e
  | .not e =>
    match eval env e with
    | .ok v => .ok (.bool !v.truthy)
    | .error e => .error e
  | .and lhs rhs =>
    match eval env lhs with
    | .ok v => if v.truthy then truthOf (eval env rhs) else .ok (.bool false)
    | .error e => .error e
  | .or lhs rhs =>
    match eval env lhs with
    | .ok v => if v.truthy then .ok (.bool true) else truthOf (eval env rhs)
    | .error e => .error e
  | .mem item container negated =>
    match eval env item, eval env container with
    | .ok v, .ok w =>
      match member v w with
      | .ok found => .ok (.bool (found != negated))
      | .error e => .error e
    | .error e, _ => .error e
    | _, .error e => .error e
  | .eq lhs rhs negated =>
    match eval env lhs, eval env rhs with
    | .ok v, .ok w => .ok (.bool (decide (v = w) != negated))
    | .error e, _ => .error e
    | _, .error e => .error e
where
  truthOf : Except Error Value → Except Error Value
    | .ok v => .ok (.bool v.truthy)
    | .error e => .error e

/-- The values of expressions in order, up to the first error. -/
def evalAll (env : Environment) : List Expr → Except Error (List Value)
  | [] => .ok []
  | e :: es =>
    match eval env e with
    | .ok v =>
      match evalAll env es with
      | .ok vs => .ok (v :: vs)
      | .error err => .error err
    | .error err => .error err

end

end Expr

end Configurator
