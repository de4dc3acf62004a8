import Configurator.Expr.Basic
import Configurator.Expr.Lexer

/-!
# From tokens to expressions

Recursive descent. `or` binds weakest, then `and`, then `not`; membership and equality compare two
atoms and do not chain. Parentheses group one expression, and make a tuple when they are empty or
hold a comma; brackets always make a tuple. An assignment gives a name to an expression, or to a
tuple whose items stand bare between commas.

Each reader returns the tokens it left, with a proof that there are fewer of them, and the descent
ends because it only recurses into such a rest or to a tighter level.
-/

namespace Configurator.Expr

/-- What was read at the beginning of `ts`, and the tokens after it. -/
structure Parsed (α : Type) (ts : List Token) where
  item : α
  rest : List Token
  rest_shorter : rest.length < ts.length

/-- The error of meeting the first of `ts` where something else was due. -/
def expected {α : Type} (what : Expectation) (ts : List Token) : Except Error α :=
  .error (.expected what ts.head?)

/-- The tokens behind `t`, if `t` comes first. -/
def after? (t : Token) : List Token → Option (List Token)
  | [] => none
  | u :: rest => if u = t then some rest else none

theorem after?_eq_some_iff {t : Token} {ts rest : List Token} :
    after? t ts = some rest ↔ ts = t :: rest := by
  cases ts with
  | nil => simp [after?]
  | cons u us => by_cases h : u = t <;> simp [after?, h]

theorem after?_length {t : Token} {ts rest : List Token} (h : after? t ts = some rest) :
    rest.length < ts.length := by
  simp [after?_eq_some_iff.1 h]

/-! ## Operands and operators -/

/-- Words that name no operand. -/
def operators : List String :=
  ["and", "or", "not", "in"]

/-- An identifier where an operand is due. -/
def operandOfIdent? (name : String) : Option Expr :=
  if name = "True" ∨ name = "true" then some (.bool true)
  else if name = "False" ∨ name = "false" then some (.bool false)
  else if name ∈ operators then none
  else some (.ident name)

/-- The comparison that the tokens begin with, and the tokens behind it. -/
def comparator? : List Token → Option ((Expr → Expr → Expr) × List Token)
  | .equal :: rest => some ((.eq · · false), rest)
  | .notEqual :: rest => some ((.eq · · true), rest)
  | .ident word :: rest =>
    if word = "in" then some ((.mem · · false), rest)
    else if word = "not" then (after? (.ident "in") rest).map fun rest' => ((.mem · · true), rest')
    else none
  | _ => none

theorem comparator?_length {ts rest : List Token} {op : Expr → Expr → Expr}
    (h : comparator? ts = some (op, rest)) : rest.length < ts.length := by
  unfold comparator? at h
  split at h
  · cases h
    simp
  · cases h
    simp
  · split at h
    · cases h
      simp
    · split at h
      · obtain ⟨rest', hr, heq⟩ := Option.map_eq_some_iff.1 h
        cases heq
        have := after?_length hr
        simp only [List.length_cons]
        omega
      · cases h
  · cases h

/-- Operands joined by a left-associative operator. -/
def joinLeft (op : Expr → Expr → Expr) : Expr × List Expr → Expr
  | (first, others) => others.foldl op first

/-- What parentheses around some expressions make of them. -/
def parenthesized : List Expr → (sawComma : Bool) → Expr
  | [e], false => e
  | items, _ => .tuple items

/-! ## Expressions -/

mutual

/-- Operands of `or`. -/
def disjuncts (ts : List Token) : Except Error (Parsed (Expr × List Expr) ts) :=
  match conjuncts ts with
  | .error e => .error e
  | .ok ⟨operands, rest, h⟩ =>
    match h' : after? (.ident "or") rest with
    | none => .ok ⟨(joinLeft .and operands, []), rest, h⟩
    | some rest' =>
      have := after?_length h'
      match disjuncts rest' with
      | .error e => .error e
      | .ok ⟨(next, others), rest'', _⟩ =>
        .ok ⟨(joinLeft .and operands, next :: others), rest'', by omega⟩
termination_by 6 * ts.length + 4

/-- Operands of `and`. -/
def conjuncts (ts : List Token) : Except Error (Parsed (Expr × List Expr) ts) :=
  match negation ts with
  | .error e => .error e
  | .ok ⟨operand, rest, h⟩ =>
    match h' : after? (.ident "and") rest with
    | none => .ok ⟨(operand, []), rest, h⟩
    | some rest' =>
      have := after?_length h'
      match conjuncts rest' with
      | .error e => .error e
      | .ok ⟨(next, others), rest'', _⟩ => .ok ⟨(operand, next :: others), rest'', by omega⟩
termination_by 6 * ts.length + 3

/-- A comparison behind any number of `not`. -/
def negation (ts : List Token) : Except Error (Parsed Expr ts) :=
  match h : after? (.ident "not") ts with
  | none => comparison ts
  | some rest =>
    have := after?_length h
    match negation rest with
    | .error e => .error e
    | .ok ⟨e, rest', _⟩ => .ok ⟨.not e, rest', by omega⟩
termination_by 6 * ts.length + 2

/-- An atom, or two atoms with a comparison between them. -/
def comparison (ts : List Token) : Except Error (Parsed Expr ts) :=
  match atom ts with
  | .error e => .error e
  | .ok ⟨lhs, rest, h⟩ =>
    match h' : comparator? rest with
    | none => .ok ⟨lhs, rest, h⟩
    | some (op, rest') =>
      have := comparator?_length h'
      match atom rest' with
      | .error e => .error e
      | .ok ⟨rhs, rest'', _⟩ => .ok ⟨op lhs rhs, rest'', by omega⟩
termination_by 6 * ts.length + 1

/-- A literal, an identifier, or expressions in parentheses or brackets. -/
def atom (ts : List Token) : Except Error (Parsed Expr ts) :=
  match ts with
  | .str s :: rest => .ok ⟨.str s, rest, by simp⟩
  | .int n :: rest => .ok ⟨.int n, rest, by simp⟩
  | .ident name :: rest =>
    match operandOfIdent? name with
    | some e => .ok ⟨e, rest, by simp⟩
    | none => expected .operand (.ident name :: rest)
  | .leftParen :: rest =>
    match sequence .rightParen rest with
    | .error e => .error e
    | .ok ⟨(items, sawComma), rest', h⟩ =>
      .ok ⟨parenthesized items sawComma, rest', by simp only [List.length_cons]; omega⟩
  | .leftBracket :: rest =>
    match sequence .rightBracket rest with
    | .error e => .error e
    | .ok ⟨(items, _), rest', h⟩ =>
      .ok ⟨.tuple items, rest', by simp only [List.length_cons]; omega⟩
  | ts => expected .operand ts
termination_by 6 * ts.length

/-- Expressions between commas up to the closing token, a comma after the last one allowed, and
whether there was any comma. -/
def sequence (close : Token) (ts : List Token) : Except Error (Parsed (List Expr × Bool) ts) :=
  match hc : after? close ts with
  | some rest => .ok ⟨([], false), rest, after?_length hc⟩
  | none =>
    match disjuncts ts with
    | .error e => .error e
    | .ok ⟨operands, rest, _⟩ =>
      match h' : after? .comma rest with
      | some rest' =>
        have := after?_length h'
        match sequence close rest' with
        | .error e => .error e
        | .ok ⟨(items, _), rest'', _⟩ =>
          .ok ⟨(joinLeft .or operands :: items, true), rest'', by omega⟩
      | none =>
        match h'' : after? close rest with
        | some rest' =>
          have := after?_length h''
          .ok ⟨([joinLeft .or operands], false), rest', by omega⟩
        | none => expected (.token close) rest
termination_by 6 * ts.length + 5

end

/-- An expression at the beginning of `ts`. -/
def expression (ts : List Token) : Except Error (Parsed Expr ts) :=
  match disjuncts ts with
  | .error e => .error e
  | .ok ⟨operands, rest, h⟩ => .ok ⟨joinLeft .or operands, rest, h⟩

/-! ## Assignments -/

/-- Expressions between commas up to a semicolon or the end, a comma after the last one allowed, and
whether there was any comma. -/
def bareSequence (ts : List Token) : Except Error (Parsed (List Expr × Bool) ts) :=
  match expression ts with
  | .error e => .error e
  | .ok ⟨e, rest, h⟩ =>
    match h' : after? .comma rest with
    | none => .ok ⟨([e], false), rest, h⟩
    | some rest' =>
      have := after?_length h'
      if rest'.head? = none ∨ rest'.head? = some .semicolon then
        .ok ⟨([e], true), rest', by omega⟩
      else
        match bareSequence rest' with
        | .error err => .error err
        | .ok ⟨(items, _), rest'', _⟩ => .ok ⟨(e :: items, true), rest'', by omega⟩
termination_by ts.length

/-- Words that cannot be assigned to. -/
def keywords : List String :=
  ["and", "or", "not", "in", "True", "False"]

/-- One assignment at the beginning of `ts`. -/
def assignment (ts : List Token) : Except Error (Parsed (String × Expr) ts) :=
  match ts with
  | .ident name :: afterName =>
    if name ∈ keywords then expected .identifier (.ident name :: afterName)
    else
      match h : after? .assign afterName with
      | none => expected (.token .assign) afterName
      | some rhs =>
        match bareSequence rhs with
        | .error e => .error e
        | .ok ⟨(items, sawComma), rest, _⟩ =>
          .ok ⟨(name, parenthesized items sawComma), rest, by
            have := after?_length h
            simp only [List.length_cons]
            omega⟩
  | ts => expected .identifier ts

/-- Assignments between semicolons up to the end, a semicolon after the last one allowed. -/
def assignments (ts : List Token) : Except Error (List (String × Expr)) :=
  match ts with
  | [] => .ok []
  | t :: ts' =>
    match assignment (t :: ts') with
    | .error e => .error e
    | .ok ⟨first, [], _⟩ => .ok [first]
    | .ok ⟨first, u :: rest, _h⟩ =>
      if u = .semicolon then (assignments rest).map fun more => first :: more
      else expected (.token .semicolon) (u :: rest)
termination_by ts.length
decreasing_by simp only [List.length_cons] at *; omega

/-! ## Texts -/

/-- The one expression that a text holds. -/
def parse (src : List Char) : Except Error Expr := do
  match ← expression (← lex src) with
  | ⟨e, [], _⟩ => pure e
  | ⟨_, rest, _⟩ => expected .endOfExpression rest

/-- The assignments that a text holds. -/
def parseAssignments (src : List Char) : Except Error (List (String × Expr)) := do
  assignments (← lex src)

/-- The assignments of a text with their values; they may not use identifiers. -/
def evalAssignments (src : List Char) : Except Error (List (String × Value)) := do
  (← parseAssignments src).mapM fun (name, e) => do
    pure (name, ← e.eval .empty)

end Configurator.Expr
