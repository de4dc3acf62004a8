import Configurator.Proofs.Expr.Grammar

/-!
# What the readers read

The readers say what they found, what they left and that they left less, or what they met instead. Here
only the first two matter (`read?`): one equation for each reader, in these terms. The readers of `or`
and `and` are the same reader of operands between operators (`chain`) at two levels.
-/

namespace Configurator.Expr

/-- What a reader found, and the tokens that it left. -/
def read? {α : Type} {ts : List Token} : Except Error (Parsed α ts) → Option (α × List Token)
  | .ok found => some (found.item, found.rest)
  | .error _ => none

@[simp] theorem read?_ok {α : Type} {ts : List Token} (found : Parsed α ts) :
    read? (.ok found) = some (found.item, found.rest) := rfl

@[simp] theorem read?_error {α : Type} {ts : List Token} (e : Error) :
    read? (.error e : Except Error (Parsed α ts)) = none := rfl

/-- What is read from the beginning of tokens as an expression of a category. -/
def reads? : Category → List Token → Option (Expr × List Token)
  | .disjunction, ts => (read? (disjuncts ts)).map (Prod.map (joinLeft .or) id)
  | .conjunction, ts => (read? (conjuncts ts)).map (Prod.map (joinLeft .and) id)
  | .negation, ts => read? (negation ts)
  | .comparison, ts => read? (comparison ts)
  | .atom, ts => read? (atom ts)

/-- An operand and, behind an operator, more operands. -/
def chain (operator : Token) (operand : List Token → Option (Expr × List Token))
    (more : List Token → Option ((Expr × List Expr) × List Token)) (ts : List Token) :
    Option ((Expr × List Expr) × List Token) :=
  (operand ts).bind fun (first, rest) =>
    match after? operator rest with
    | none => some ((first, []), rest)
    | some rest' => (more rest').map fun (others, left) => ((first, others.1 :: others.2), left)

theorem read?_disjuncts (ts : List Token) :
    read? (disjuncts ts)
      = chain (.ident "or") (reads? .conjunction) (fun us => read? (disjuncts us)) ts := by
  rw [disjuncts.eq_def, chain, reads?]
  cases conjuncts ts with
  | error e => rfl
  | ok found =>
      simp only [read?_ok, Option.map_some, Prod.map, id, Option.bind_some]
      split
      · next h => simp [h]
      · next rest h => cases hmore : disjuncts rest <;> simp [h, hmore]

theorem read?_conjuncts (ts : List Token) :
    read? (conjuncts ts)
      = chain (.ident "and") (reads? .negation) (fun us => read? (conjuncts us)) ts := by
  rw [conjuncts.eq_def, chain, reads?]
  cases negation ts with
  | error e => rfl
  | ok found =>
      simp only [read?_ok, Option.bind_some]
      split
      · next h => simp [h]
      · next rest h => cases hmore : conjuncts rest <;> simp [h, hmore]

theorem reads?_negation (ts : List Token) :
    reads? .negation ts
      = match after? (.ident "not") ts with
        | none => reads? .comparison ts
        | some rest => (reads? .negation rest).map (Prod.map .not id) := by
  rw [reads?, negation.eq_def, reads?]
  split
  · next h => simp [h]
  · next rest h => cases hinner : negation rest <;> simp [h, hinner, reads?]

theorem reads?_comparison (ts : List Token) :
    reads? .comparison ts
      = (reads? .atom ts).bind fun (lhs, rest) =>
          match comparator? rest with
          | none => some (lhs, rest)
          | some (op, rest') => (reads? .atom rest').map (Prod.map (op lhs) id) := by
  rw [reads?, comparison.eq_def, reads?]
  cases atom ts with
  | error e => rfl
  | ok found =>
      simp only [read?_ok, Option.bind_some]
      split
      · next h => simp [h]
      · next op rest h => cases hright : atom rest <;> simp [h, hright, reads?]

theorem reads?_atom (ts : List Token) :
    reads? .atom ts
      = match ts with
        | .str s :: rest => some (.str s, rest)
        | .int n :: rest => some (.int n, rest)
        | .ident name :: rest => (operandOfIdent? name).map (·, rest)
        | .leftParen :: rest => (read? (sequence .rightParen rest)).map
            (Prod.map (fun found => parenthesized found.1 found.2) id)
        | .leftBracket :: rest => (read? (sequence .rightBracket rest)).map
            (Prod.map (fun found => .tuple found.1) id)
        | _ => none := by
  rw [reads?, atom.eq_def]
  cases ts with
  | nil => rfl
  | cons t rest =>
      cases t with
      | ident name =>
          simp only
          cases operandOfIdent? name <;> rfl
      | leftParen =>
          simp only
          cases sequence .rightParen rest <;> rfl
      | leftBracket =>
          simp only
          cases sequence .rightBracket rest <;> rfl
      | str | int | rightParen | rightBracket | comma | assign | semicolon | equal | notEqual => rfl

theorem read?_sequence (close : Token) (ts : List Token) :
    read? (sequence close ts)
      = match after? close ts with
        | some rest => some (([], false), rest)
        | none => (reads? .disjunction ts).bind fun (first, rest) =>
            match after? .comma rest with
            | some rest' => (read? (sequence close rest')).map fun (found, left) =>
                ((first :: found.1, true), left)
            | none => (after? close rest).map (([first], false), ·) := by
  rw [sequence.eq_def, reads?]
  split
  · next rest h => simp [h]
  · next h =>
    cases hfirst : disjuncts ts with
    | error e => simp [h]
    | ok found =>
        simp only [h, read?_ok, Option.map_some, Prod.map, id, Option.bind_some]
        split
        · next rest hcomma => cases hmore : sequence close rest <;> simp [hcomma, hmore]
        · next hcomma =>
          split
          · next rest hclose => simp [hcomma, hclose]
          · next hclose => simp [hcomma, hclose, expected]

theorem read?_bareSequence (ts : List Token) :
    read? (bareSequence ts)
      = (reads? .disjunction ts).bind fun (first, rest) =>
          match after? .comma rest with
          | none => some (([first], false), rest)
          | some rest' =>
            if rest'.head? = none ∨ rest'.head? = some .semicolon then some (([first], true), rest')
            else (read? (bareSequence rest')).map fun (found, left) =>
              ((first :: found.1, true), left) := by
  rw [bareSequence.eq_def, expression, reads?]
  cases disjuncts ts with
  | error e => rfl
  | ok found =>
      simp only [read?_ok, Option.map_some, Prod.map, id, Option.bind_some]
      split
      · next h => simp [h]
      · next rest h =>
        simp only [h]
        split
        · rfl
        · cases hmore : bareSequence rest <;> simp

theorem read?_assignment (ts : List Token) :
    read? (assignment ts)
      = match ts with
        | .ident name :: behind =>
          if name ∈ keywords then none
          else (after? .assign behind).bind fun value => (read? (bareSequence value)).map
            (Prod.map (fun found => (name, parenthesized found.1 found.2)) id)
        | _ => none := by
  rw [assignment.eq_def]
  cases ts with
  | nil => rfl
  | cons t behind =>
      cases t with
      | ident name =>
          simp only
          split
          · rfl
          · split
            · next h =>
              rw [h]
              rfl
            · next value h =>
              simp only [h, Option.bind_some]
              cases bareSequence value <;> rfl
      | str | int | leftParen | rightParen | leftBracket | rightBracket | comma | assign | semicolon
      | equal | notEqual => rfl

/-- An assignment with those behind it, and without the error where there is one. -/
def continued (first : String × Expr) : List Token → Option (List (String × Expr))
  | [] => some [first]
  | t :: ts => if t = .semicolon then (assignments ts).toOption.map (first :: ·) else none

theorem toOption_assignments_nil : (assignments []).toOption = some [] := by
  rw [assignments]
  rfl

theorem toOption_assignments_cons (t : Token) (ts : List Token) :
    (assignments (t :: ts)).toOption
      = (read? (assignment (t :: ts))).bind fun found => continued found.1 found.2 := by
  rw [assignments]
  split
  · next h =>
    rw [h]
    rfl
  · next first h =>
    rw [h]
    rfl
  · next first u left _ h =>
    rw [h]
    simp only [read?_ok, Option.bind_some, continued]
    split
    · cases assignments left <;> rfl
    · rfl

end Configurator.Expr
