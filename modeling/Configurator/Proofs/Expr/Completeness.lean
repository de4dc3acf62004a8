import Configurator.Proofs.Expr.Soundness

/-!
# What is derived is read

Tokens that derive a tree are read as that tree, if what stands behind them does not go on with an
expression of the category (`reads?_of_derives`). The induction is on the derivation: its pieces end in
front of operators, commas and brackets, and no expression begins with what ends another one.
-/

namespace Configurator.Expr

/-! ## Ends -/

/-- Whether an expression of a category can only end in front of some tokens. -/
def Category.EndsAt : Category → List Token → Prop
  | .atom, _ => True
  | .comparison, ts | .negation, ts => comparator? ts = none
  | .conjunction, ts => comparator? ts = none ∧ after? (.ident "and") ts = none
  | .disjunction, ts =>
    comparator? ts = none ∧ after? (.ident "and") ts = none ∧ after? (.ident "or") ts = none

/-- Whether a token ends every expression in front of it. -/
def Token.endsExpression : Token → Bool
  | .comma | .rightParen | .rightBracket | .semicolon => true
  | _ => false

theorem endsAt_disjunction_nil : Category.disjunction.EndsAt [] :=
  ⟨rfl, rfl, rfl⟩

theorem endsAt_disjunction_cons {t : Token} (h : t.endsExpression = true) (ts : List Token) :
    Category.disjunction.EndsAt (t :: ts) := by
  cases t with
  | comma | rightParen | rightBracket | semicolon => exact ⟨rfl, rfl, rfl⟩
  | str | int | ident | leftParen | leftBracket | assign | equal | notEqual => cases h

theorem Derives.after?_eq_none {ts : List Token} {e : Expr} (h : Derives .disjunction ts e)
    {close : Token} (hclose : close.endsExpression = true) (us : List Token) :
    after? close (ts ++ us) = none := by
  obtain ⟨t, ws, rfl, ht⟩ := h.exists_head
  have hne : t ≠ close := by
    rintro rfl
    rcases ht with ht | rfl
    · cases t <;> cases hclose <;> cases ht
    · cases hclose
  exact if_neg hne

theorem comparator?_of_compares {words : List Token} {op : Expr → Expr → Expr}
    (h : Compares words op) (ts : List Token) : comparator? (words ++ ts) = some (op, ts) := by
  cases h <;> rfl

theorem operandOfIdent?_of_not_mem {name : String}
    (h : name ∉ ["and", "or", "not", "in", "True", "true", "False", "false"]) :
    operandOfIdent? name = some (.ident name) := by
  simp only [List.mem_cons, List.not_mem_nil, or_false, not_or] at h
  simp [operandOfIdent?, operators, h]

/-! ## Lists -/

/-- Whether a piece is read wherever it ends. -/
def Piece.IsRead (category : Category) (p : Piece) : Prop :=
  ∀ rest, category.EndsAt rest → reads? category (p.tokens ++ rest) = some (p.tree, rest)

theorem read?_chain {operator : Token} {category : Category}
    {more : List Token → Option ((Expr × List Expr) × List Token)}
    (hmore : ∀ us, more us = chain operator (reads? category) more us)
    (hoperator : ∀ us, category.EndsAt (operator :: us)) {first : Piece} {others : List Piece}
    (hread : ∀ p ∈ first :: others, p.IsRead category) {rest : List Token}
    (hrest : category.EndsAt rest) (hend : after? operator rest = none) :
    more (separated operator false ((first :: others).map (·.tokens)) ++ rest)
      = some ((first.tree, others.map (·.tree)), rest) := by
  have hself := hread first List.mem_cons_self
  induction others generalizing first with
  | nil =>
      show more (first.tokens ++ rest) = _
      rw [hmore, chain, hself rest hrest, Option.bind_some]
      simp [hend]
  | cons second others ih =>
      have hothers := ih (fun p hp => hread p (List.mem_cons_of_mem _ hp))
        (hread second (List.mem_cons_of_mem _ List.mem_cons_self))
      rw [List.map_cons] at hothers
      rw [List.map_cons, separated_cons _ (by simp), List.append_assoc, List.cons_append, hmore, chain,
        hself _ (hoperator _), Option.bind_some]
      simp only [after?, if_true, List.map_cons, hothers, Option.map_some]

theorem read?_sequence_of_derives {close : Token} (hclose : close.endsExpression = true)
    (hcomma : close ≠ .comma) {pieces : List Piece} (trailing : Bool)
    (hderives : ∀ p ∈ pieces, Derives .disjunction p.tokens p.tree)
    (hread : ∀ p ∈ pieces, p.IsRead .disjunction) (rest : List Token) :
    ∃ found, ReadFrom found pieces trailing
      ∧ read? (sequence close
          (separated .comma trailing (pieces.map (·.tokens)) ++ close :: rest)) = some (found, rest) := by
  induction pieces with
  | nil =>
      refine ⟨([], false), ⟨rfl, by simp, by simp⟩, ?_⟩
      rw [read?_sequence]
      simp [separated, after?]
  | cons p pieces ih =>
      have hp := hderives p List.mem_cons_self
      by_cases hmore : pieces = [] → trailing = true
      · obtain ⟨found, hfound, hinner⟩ := ih (fun q hq => hderives q (List.mem_cons_of_mem _ hq))
          (fun q hq => hread q (List.mem_cons_of_mem _ hq))
        refine ⟨_, .cons hp hfound hmore, ?_⟩
        rw [List.map_cons, separated_cons _ fun hnil => hmore (List.map_eq_nil_iff.1 hnil),
          List.append_assoc, List.cons_append, read?_sequence, hp.after?_eq_none hclose,
          hread p List.mem_cons_self _ (endsAt_disjunction_cons rfl _)]
        simp only [Option.bind_some, after?, if_true, hinner, Option.map_some]
      · obtain ⟨rfl, hlast⟩ := Classical.not_imp.1 hmore
        cases Bool.eq_false_iff.2 hlast
        refine ⟨_, .single hp false, ?_⟩
        show read? (sequence close (p.tokens ++ close :: rest)) = _
        rw [read?_sequence, hp.after?_eq_none hclose,
          hread p List.mem_cons_self _ (endsAt_disjunction_cons hclose _)]
        simp [after?, hcomma]

theorem read?_bareSequence_single {p : Piece} (hread : p.IsRead .disjunction) (trailing : Bool)
    {rest : List Token} (hrest : rest.head? = none ∨ rest.head? = some .semicolon) :
    read? (bareSequence (separated .comma trailing [p.tokens] ++ rest))
      = some (([p.tree], trailing), rest) := by
  cases trailing with
  | true =>
      show read? (bareSequence ((p.tokens ++ [.comma]) ++ rest)) = _
      rw [List.append_assoc, List.singleton_append, read?_bareSequence,
        hread _ (endsAt_disjunction_cons rfl _)]
      simp only [Option.bind_some, after?, if_true, if_pos hrest]
  | false =>
      have hends : Category.disjunction.EndsAt rest ∧ after? .comma rest = none := by
        cases rest with
        | nil => exact ⟨endsAt_disjunction_nil, rfl⟩
        | cons t ts =>
            obtain rfl : t = .semicolon := by simpa using hrest
            exact ⟨endsAt_disjunction_cons rfl _, rfl⟩
      show read? (bareSequence (p.tokens ++ rest)) = _
      rw [read?_bareSequence, hread _ hends.1]
      simp [hends.2]

/-- Where an expression begins stands neither the end nor a semicolon. -/
theorem Derives.not_ends {p : Piece} (h : Derives .disjunction p.tokens p.tree) (trailing : Bool)
    (pieces : List Piece) (rest : List Token) :
    let ts := separated .comma trailing ((p :: pieces).map (·.tokens)) ++ rest
    ¬ (ts.head? = none ∨ ts.head? = some .semicolon) := by
  obtain ⟨us, hus⟩ := exists_separated_cons .comma trailing p.tokens (pieces.map (·.tokens))
  obtain ⟨t, ts, hp, ht⟩ := h.exists_head
  intro all
  have hhead : all.head? = some t := by
    show (separated .comma trailing (p.tokens :: pieces.map (·.tokens)) ++ rest).head? = _
    rw [hus, hp]
    rfl
  rw [hhead]
  rintro (hnone | hsome)
  · cases hnone
  · cases hsome
    rcases ht with ht | ht <;> cases ht

/-- A bare list ends with the tokens or in front of a semicolon. -/
theorem read?_bareSequence_of_derives {pieces : List Piece} (trailing : Bool) (hsome : pieces ≠ [])
    (hderives : ∀ p ∈ pieces, Derives .disjunction p.tokens p.tree)
    (hread : ∀ p ∈ pieces, p.IsRead .disjunction) {rest : List Token}
    (hrest : rest.head? = none ∨ rest.head? = some .semicolon) :
    ∃ found, ReadFrom found pieces trailing
      ∧ read? (bareSequence (separated .comma trailing (pieces.map (·.tokens)) ++ rest))
        = some (found, rest) := by
  induction pieces with
  | nil => exact absurd rfl hsome
  | cons p pieces ih =>
      have hp := hderives p List.mem_cons_self
      have hself := hread p List.mem_cons_self
      cases pieces with
      | nil => exact ⟨_, .single hp trailing, read?_bareSequence_single hself trailing hrest⟩
      | cons q pieces =>
          obtain ⟨found, hfound, hinner⟩ := ih (List.cons_ne_nil q pieces)
            (fun r hr => hderives r (List.mem_cons_of_mem _ hr))
            (fun r hr => hread r (List.mem_cons_of_mem _ hr))
          refine ⟨_, .cons hp hfound fun hnil => absurd hnil (List.cons_ne_nil q pieces), ?_⟩
          have hgoes := (hderives q (by simp)).not_ends trailing pieces rest
          rw [List.map_cons, separated_cons _ (by simp), List.append_assoc, List.cons_append,
            read?_bareSequence, hself _ (endsAt_disjunction_cons rfl _)]
          simp only [Option.bind_some, after?, if_true, if_neg hgoes, hinner, Option.map_some]

/-! ## Expressions -/

theorem reads?_parentheses {pieces : List Piece} (trailing : Bool)
    (hderives : ∀ p ∈ pieces, Derives .disjunction p.tokens p.tree)
    (hread : ∀ p ∈ pieces, p.IsRead .disjunction) (rest : List Token) :
    ∃ found, ReadFrom found pieces trailing
      ∧ reads? .atom ((.leftParen :: separated .comma trailing (pieces.map (·.tokens))
          ++ [.rightParen]) ++ rest) = some (parenthesized found.1 found.2, rest) := by
  have hclose : Token.rightParen.endsExpression = true := rfl
  obtain ⟨found, hfound, hsequence⟩ :=
    read?_sequence_of_derives hclose (by simp) trailing hderives hread rest
  refine ⟨found, hfound, ?_⟩
  simp only [List.cons_append, List.append_assoc, List.nil_append]
  rw [reads?_atom]
  simp only [hsequence, Option.map_some, Prod.map, id]

theorem reads?_brackets {pieces : List Piece} (trailing : Bool)
    (hderives : ∀ p ∈ pieces, Derives .disjunction p.tokens p.tree)
    (hread : ∀ p ∈ pieces, p.IsRead .disjunction) (rest : List Token) :
    reads? .atom ((.leftBracket :: separated .comma trailing (pieces.map (·.tokens))
        ++ [.rightBracket]) ++ rest) = some (.tuple (pieces.map (·.tree)), rest) := by
  have hclose : Token.rightBracket.endsExpression = true := rfl
  obtain ⟨found, hfound, hsequence⟩ :=
    read?_sequence_of_derives hclose (by simp) trailing hderives hread rest
  simp only [List.cons_append, List.append_assoc, List.nil_append]
  rw [reads?_atom]
  simp only [hsequence, Option.map_some, Prod.map, id, hfound.trees]

theorem ReadFrom.parenthesized_tuple {found : List Expr × Bool} {pieces : List Piece}
    {trailing : Bool} (h : ReadFrom found pieces trailing)
    (hcomma : pieces.length ≠ 1 ∨ trailing = true) :
    parenthesized found.1 found.2 = .tuple (pieces.map (·.tree)) := by
  rcases h.parenthesized_eq with ⟨p, rfl, rfl, -⟩ | ⟨-, htree⟩
  · simp at hcomma
  · exact htree

theorem ReadFrom.parenthesized_single {found : List Expr × Bool} {p : Piece}
    (h : ReadFrom found [p] false) : parenthesized found.1 found.2 = p.tree := by
  rcases h.parenthesized_eq with ⟨q, heq, -, htree⟩ | ⟨hcomma, -⟩
  · cases heq
    exact htree
  · simp at hcomma

theorem reads?_of_derives {category : Category} {ts : List Token} {e : Expr}
    (h : Derives category ts e) : (Piece.mk ts e).IsRead category := by
  induction h with
  | disjunction _ ih =>
      rintro rest ⟨hcompare, hand, hor⟩
      have hread := read?_chain read?_disjuncts (fun us => ⟨rfl, rfl⟩) ih ⟨hcompare, hand⟩ hor
      show Option.map _ (read? (disjuncts _)) = _
      rw [hread]
      rfl
  | conjunction _ ih =>
      rintro rest ⟨hcompare, hand⟩
      have hread := read?_chain read?_conjuncts (fun us => rfl) ih hcompare hand
      show Option.map _ (read? (conjuncts _)) = _
      rw [hread]
      rfl
  | @not ts e _ ih =>
      intro rest hrest
      show reads? .negation (.ident "not" :: (ts ++ rest)) = _
      rw [reads?_negation]
      simp only [after?, if_true, ih rest hrest, Option.map_some, Prod.map, id]
  | @negation ts e hcomparison ih =>
      intro rest hrest
      have hnot : after? (.ident "not") (ts ++ rest) = none := by
        obtain ⟨t, us, rfl, ht⟩ := hcomparison.exists_head
        refine if_neg ?_
        rintro rfl
        cases ht
      show reads? .negation (ts ++ rest) = _
      rw [reads?_negation, hnot]
      exact ih rest hrest
  | @comparison ts e _ ih =>
      intro rest hrest
      have hcompare : comparator? rest = none := hrest
      show reads? .comparison (ts ++ rest) = _
      rw [reads?_comparison, ih rest trivial, Option.bind_some]
      simp only [hcompare]
  | @compare ts words us lhs rhs op _ hwords _ ihl ihr =>
      intro rest _
      show reads? .comparison ((ts ++ words ++ us) ++ rest) = _
      rw [List.append_assoc, List.append_assoc, reads?_comparison, ihl _ trivial, Option.bind_some]
      simp only [comparator?_of_compares hwords, ihr rest trivial, Option.map_some, Prod.map, id]
  | str | int =>
      intro rest _
      exact reads?_atom _
  | trueWord hname | falseWord hname =>
      intro rest _
      simp only [List.mem_cons, List.not_mem_nil, or_false] at hname
      rcases hname with rfl | rfl <;> exact reads?_atom _
  | ident hname =>
      intro rest _
      show reads? .atom (.ident _ :: rest) = _
      rw [reads?_atom]
      simp [operandOfIdent?_of_not_mem hname]
  | @group ts e hinner ih =>
      intro rest _
      have hderives : ∀ p ∈ [Piece.mk ts e], Derives .disjunction p.tokens p.tree := by
        simpa using hinner
      obtain ⟨found, hfound, hread⟩ :=
        reads?_parentheses false hderives (by simpa using ih) rest
      rw [hfound.parenthesized_single] at hread
      exact hread
  | @parentheses pieces trailing hinner hcomma ih =>
      intro rest _
      obtain ⟨found, hfound, hread⟩ := reads?_parentheses trailing hinner ih rest
      rw [hfound.parenthesized_tuple hcomma] at hread
      exact hread
  | @brackets pieces trailing hinner ih => exact fun rest _ => reads?_brackets trailing hinner ih rest

end Configurator.Expr
