import Configurator.Expr.Parser

/-!
# The grammar of directive expressions

    or     := and ('or' and)*
    and    := not ('and' not)*
    not    := 'not' not | cmp
    cmp    := atom | atom ('in' | 'not' 'in' | '==' | '!=') atom
    atom   := string | integer | true | false | identifier | '(' seq ')' | '[' seq ']'
    seq    := empty | or (',' or)* [',']

    assignments := empty | assignment (';' assignment)* [';']
    assignment  := identifier '=' (or | or (',' or)* ',' | or (',' or)+)

The rules say which tokens derive which tree and nothing about how tokens are read: a repetition is a
list of pieces, each a stretch of tokens with its tree. The operators `or` and `and` associate to the
left, and comparisons do not chain. One expression in parentheses stands for itself, everything else
between parentheses or brackets is a tuple.
-/

namespace Configurator.Expr

/-! ## Rules -/

/-- What expressions derive from, the weakest binding first. -/
inductive Category where
  | disjunction
  | conjunction
  | negation
  | comparison
  | atom

/-- A stretch of tokens with its tree. -/
structure Piece where
  tokens : List Token
  tree : Expr

/-- Stretches with a separator between them, and one behind the last if that is `trailing`. -/
def separated (separator : Token) (trailing : Bool) : List (List Token) → List Token
  | [] => []
  | [last] => if trailing then last ++ [separator] else last
  | first :: second :: more => first ++ separator :: separated separator trailing (second :: more)

/-- The words between two atoms, and the comparison that they stand for. -/
inductive Compares : List Token → (Expr → Expr → Expr) → Prop
  | mem : Compares [.ident "in"] (.mem · · false)
  | notMem : Compares [.ident "not", .ident "in"] (.mem · · true)
  | equal : Compares [.equal] (.eq · · false)
  | notEqual : Compares [.notEqual] (.eq · · true)

/-- Whether tokens derive a tree. -/
inductive Derives : Category → List Token → Expr → Prop
  | disjunction {first : Piece} {others : List Piece} :
      (∀ p ∈ first :: others, Derives .conjunction p.tokens p.tree) →
      Derives .disjunction (separated (.ident "or") false ((first :: others).map (·.tokens)))
        ((others.map (·.tree)).foldl .or first.tree)
  | conjunction {first : Piece} {others : List Piece} :
      (∀ p ∈ first :: others, Derives .negation p.tokens p.tree) →
      Derives .conjunction (separated (.ident "and") false ((first :: others).map (·.tokens)))
        ((others.map (·.tree)).foldl .and first.tree)
  | not {ts : List Token} {e : Expr} : Derives .negation ts e →
      Derives .negation (.ident "not" :: ts) (.not e)
  | negation {ts : List Token} {e : Expr} : Derives .comparison ts e → Derives .negation ts e
  | comparison {ts : List Token} {e : Expr} : Derives .atom ts e → Derives .comparison ts e
  | compare {ts words us : List Token} {lhs rhs : Expr} {op : Expr → Expr → Expr} :
      Derives .atom ts lhs → Compares words op → Derives .atom us rhs →
      Derives .comparison (ts ++ words ++ us) (op lhs rhs)
  | str (s : String) : Derives .atom [.str s] (.str s)
  | int (n : Int) : Derives .atom [.int n] (.int n)
  | trueWord {name : String} : name ∈ ["True", "true"] → Derives .atom [.ident name] (.bool true)
  | falseWord {name : String} : name ∈ ["False", "false"] → Derives .atom [.ident name] (.bool false)
  | ident {name : String} :
      name ∉ ["and", "or", "not", "in", "True", "true", "False", "false"] →
      Derives .atom [.ident name] (.ident name)
  | group {ts : List Token} {e : Expr} : Derives .disjunction ts e →
      Derives .atom (.leftParen :: ts ++ [.rightParen]) e
  | parentheses {pieces : List Piece} {trailing : Bool} :
      (∀ p ∈ pieces, Derives .disjunction p.tokens p.tree) →
      (pieces.length ≠ 1 ∨ trailing = true) →
      Derives .atom (.leftParen :: separated .comma trailing (pieces.map (·.tokens)) ++ [.rightParen])
        (.tuple (pieces.map (·.tree)))
  | brackets {pieces : List Piece} {trailing : Bool} :
      (∀ p ∈ pieces, Derives .disjunction p.tokens p.tree) →
      Derives .atom
        (.leftBracket :: separated .comma trailing (pieces.map (·.tokens)) ++ [.rightBracket])
        (.tuple (pieces.map (·.tree)))

/-- Whether tokens derive the right side of an assignment. -/
inductive DerivesValue : List Token → Expr → Prop
  | single {ts : List Token} {e : Expr} : Derives .disjunction ts e → DerivesValue ts e
  | trailing {pieces : List Piece} : (∀ p ∈ pieces, Derives .disjunction p.tokens p.tree) →
      1 ≤ pieces.length →
      DerivesValue (separated .comma true (pieces.map (·.tokens))) (.tuple (pieces.map (·.tree)))
  | bare {pieces : List Piece} : (∀ p ∈ pieces, Derives .disjunction p.tokens p.tree) →
      2 ≤ pieces.length →
      DerivesValue (separated .comma false (pieces.map (·.tokens))) (.tuple (pieces.map (·.tree)))

/-- A name with the value that it is assigned. -/
structure Binding where
  name : String
  value : Piece

def Binding.tokens (b : Binding) : List Token :=
  .ident b.name :: .assign :: b.value.tokens

/-- Whether a name can be assigned to and gets a value. -/
structure Binding.IsDerived (b : Binding) : Prop where
  name : b.name ∉ ["and", "or", "not", "in", "True", "False"]
  value : DerivesValue b.value.tokens b.value.tree

/-- Whether tokens derive a list of assignments. -/
inductive DerivesAssignments : List Token → List (String × Expr) → Prop
  | list {bindings : List Binding} {trailing : Bool} : (∀ b ∈ bindings, b.IsDerived) →
      DerivesAssignments (separated .semicolon trailing (bindings.map (·.tokens)))
        (bindings.map fun b => (b.name, b.value.tree))

/-! ## Separators -/

theorem separated_cons {separator : Token} {trailing : Bool} (ts : List Token)
    {more : List (List Token)} (h : more = [] → trailing = true) :
    separated separator trailing (ts :: more) = ts ++ separator :: separated separator trailing more := by
  cases more with
  | nil =>
      rw [h rfl]
      rfl
  | cons us more => rfl

/-- A stretch in front of others stands in front of their separator, or of a trailing one. -/
theorem append_separated (separator : Token) (trailing : Bool) (ts : List Token)
    (more : List (List Token)) :
    ts ++ separator :: separated separator trailing more
      = separated separator (more.isEmpty || trailing) (ts :: more) := by
  cases more with
  | nil => rfl
  | cons us more => rfl

theorem exists_separated_cons (separator : Token) (trailing : Bool) (ts : List Token)
    (more : List (List Token)) : ∃ us, separated separator trailing (ts :: more) = ts ++ us := by
  cases more with
  | nil =>
      cases trailing with
      | true => exact ⟨[separator], rfl⟩
      | false => exact ⟨[], (List.append_nil ts).symm⟩
  | cons us more => exact ⟨_, rfl⟩

/-! ## First tokens -/

/-- Whether an atom can begin with a token. -/
def Token.beginsAtom : Token → Bool
  | .str _ | .int _ | .leftParen | .leftBracket => true
  | .ident name => name ∉ operators
  | _ => false

/-- Whether a category can begin with a token. -/
def Category.Begins : Category → Token → Prop
  | .atom, t | .comparison, t => t.beginsAtom = true
  | .negation, t | .conjunction, t | .disjunction, t => t.beginsAtom = true ∨ t = .ident "not"

theorem Derives.exists_head {category : Category} {ts : List Token} {e : Expr}
    (h : Derives category ts e) : ∃ t us, ts = t :: us ∧ category.Begins t := by
  have hfirst : ∀ (separator : Token) (first : Piece) (others : List Piece) {P : Token → Prop},
      (∃ t us, first.tokens = t :: us ∧ P t) →
      ∃ t us, separated separator false ((first :: others).map (·.tokens)) = t :: us ∧ P t := by
    rintro separator first others P ⟨t, us, heq, ht⟩
    obtain ⟨vs, hvs⟩ := exists_separated_cons separator false first.tokens (others.map (·.tokens))
    exact ⟨t, us ++ vs, by rw [List.map_cons, hvs, heq, List.cons_append], ht⟩
  induction h with
  | disjunction _ ih => exact hfirst _ _ _ (ih _ List.mem_cons_self)
  | conjunction _ ih => exact hfirst _ _ _ (ih _ List.mem_cons_self)
  | not _ _ => exact ⟨_, _, rfl, .inr rfl⟩
  | negation _ ih =>
      obtain ⟨t, us, heq, ht⟩ := ih
      exact ⟨t, us, heq, .inl ht⟩
  | comparison _ ih => exact ih
  | compare _ _ _ ih _ =>
      obtain ⟨t, us, rfl, ht⟩ := ih
      exact ⟨t, _, rfl, ht⟩
  | str | int | group | parentheses | brackets => exact ⟨_, _, rfl, rfl⟩
  | trueWord hname | falseWord hname =>
      refine ⟨_, _, rfl, ?_⟩
      simp only [List.mem_cons, List.not_mem_nil, or_false] at hname
      rcases hname with rfl | rfl
      · exact rfl
      · exact rfl
  | ident hname =>
      refine ⟨_, _, rfl, ?_⟩
      simp_all [Category.Begins, Token.beginsAtom, operators]

end Configurator.Expr
