import Mathlib
import Configurator.Proofs.Expr.Completeness
import Configurator.Proofs.Outcome

/-!
# Recognition

A text of tokens is read as an expression, or as a list of assignments, exactly if its tokens derive
that, and every other one is refused (`parse_eq_ok_iff`). In particular no text derives two trees
(`Derives.unique`).
-/

namespace Configurator.Expr

open Outcome (toOption_eq_some_iff)

/-! ## Whole expressions -/

theorem reads?_eq_some_iff {ts : List Token} {e : Expr} :
    reads? .disjunction ts = some (e, []) ↔ Derives .disjunction ts e := by
  constructor
  · intro h
    obtain ⟨us, rfl, hus⟩ := derives_of_reads? ts e [] h
    rwa [List.append_nil]
  · intro h
    have hread := reads?_of_derives h [] endsAt_disjunction_nil
    rwa [List.append_nil] at hread

/-- The grammar is unambiguous. -/
theorem Derives.unique {ts : List Token} {e e' : Expr} (h : Derives .disjunction ts e)
    (h' : Derives .disjunction ts e') : e = e' := by
  rw [← reads?_eq_some_iff] at h h'
  rw [h, Option.some.injEq, Prod.mk.injEq] at h'
  exact h'.1

theorem parse_of_lex {src : List Char} {ts : List Token} (h : lex src = .ok ts) {e : Expr} :
    parse src = .ok e ↔ reads? .disjunction ts = some (e, []) := by
  simp only [parse, h, bind, Except.bind, expression, reads?]
  cases disjuncts ts with
  | error err => simp
  | ok found =>
      obtain ⟨operands, rest, hrest⟩ := found
      cases rest with
      | nil => simp [Prod.map, pure, Except.pure]
      | cons t us => simp [Prod.map, expected]

/-! ## Assignments -/

theorem derivesValue_of_read? {ts rest : List Token} {found : List Expr × Bool}
    (h : read? (bareSequence ts) = some (found, rest)) :
    ∃ us, ts = us ++ rest ∧ DerivesValue us (parenthesized found.1 found.2) := by
  obtain ⟨pieces, trailing, hread, hsome, rfl⟩ :=
    sound_bareSequence (fun us _ => derives_of_reads? us) h
  have hpos : 1 ≤ pieces.length := List.length_pos_iff.2 hsome
  refine ⟨_, rfl, ?_⟩
  rcases hread.parenthesized_eq with ⟨p, rfl, rfl, htree⟩ | ⟨hcomma, htree⟩
  · rw [htree]
    exact .single (hread.derives p (List.mem_singleton_self p))
  · rw [htree]
    cases trailing with
    | true => exact .trailing hread.derives hpos
    | false => exact .bare hread.derives (by simp at hcomma; omega)

theorem DerivesValue.exists_bareSequence {ts rest : List Token} {e : Expr} (h : DerivesValue ts e)
    (hrest : rest.head? = none ∨ rest.head? = some .semicolon) :
    ∃ found, read? (bareSequence (ts ++ rest)) = some (found, rest)
      ∧ parenthesized found.1 found.2 = e := by
  have hall : ∀ {pieces : List Piece}, (∀ p ∈ pieces, Derives .disjunction p.tokens p.tree) →
      ∀ p ∈ pieces, p.IsRead .disjunction := fun hderives p hp => reads?_of_derives (hderives p hp)
  cases h with
  | @single ts e hts =>
      have hderives : ∀ p ∈ [Piece.mk ts e], Derives .disjunction p.tokens p.tree := by
        simpa using hts
      obtain ⟨found, hfound, hread⟩ := read?_bareSequence_of_derives false (List.cons_ne_nil _ _)
        hderives (hall hderives) hrest
      exact ⟨found, hread, hfound.parenthesized_single⟩
  | trailing hderives hlength =>
      obtain ⟨found, hfound, hread⟩ := read?_bareSequence_of_derives true
        (List.length_pos_iff.1 hlength) hderives (hall hderives) hrest
      exact ⟨found, hread, hfound.parenthesized_tuple (.inr rfl)⟩
  | bare hderives hlength =>
      obtain ⟨found, hfound, hread⟩ := read?_bareSequence_of_derives false
        (List.length_pos_iff.1 (by omega)) hderives (hall hderives) hrest
      exact ⟨found, hread, hfound.parenthesized_tuple (.inl (by omega))⟩

theorem exists_binding_of_read? {ts rest : List Token} {found : String × Expr}
    (h : read? (assignment ts) = some (found, rest)) :
    ∃ b : Binding, b.IsDerived ∧ ts = b.tokens ++ rest ∧ found = (b.name, b.value.tree) := by
  rw [read?_assignment] at h
  split at h
  · next name behind =>
    split at h
    · cases h
    · next hname =>
      obtain ⟨value, hvalue, hread⟩ := Option.bind_eq_some_iff.1 h
      obtain ⟨⟨items, left⟩, hitems, heq⟩ := Option.map_eq_some_iff.1 hread
      cases heq
      obtain ⟨us, rfl, hus⟩ := derivesValue_of_read? hitems
      refine ⟨⟨name, us, parenthesized items.1 items.2⟩, ⟨hname, hus⟩, ?_, rfl⟩
      rw [after?_eq_some_iff.1 hvalue]
      rfl
  · cases h

theorem Binding.IsDerived.reads_assignment {b : Binding} (h : b.IsDerived) {rest : List Token}
    (hrest : rest.head? = none ∨ rest.head? = some .semicolon) :
    read? (assignment (b.tokens ++ rest)) = some ((b.name, b.value.tree), rest) := by
  obtain ⟨found, hread, htree⟩ := h.value.exists_bareSequence hrest
  have hname : b.name ∉ keywords := h.name
  rw [read?_assignment]
  simp only [Binding.tokens, List.cons_append, if_neg hname, after?, if_true, Option.bind_some, hread,
    Option.map_some, Prod.map, id, htree]

theorem DerivesAssignments.single {b : Binding} (hb : b.IsDerived) :
    DerivesAssignments b.tokens [(b.name, b.value.tree)] := by
  have hall : ∀ b' ∈ [b], b'.IsDerived := by simpa using hb
  have hlist : DerivesAssignments (separated .semicolon false [b.tokens]) _ := .list hall
  exact hlist

theorem DerivesAssignments.cons {b : Binding} (hb : b.IsDerived) {ts : List Token}
    {more : List (String × Expr)} (h : DerivesAssignments ts more) :
    DerivesAssignments (b.tokens ++ .semicolon :: ts) ((b.name, b.value.tree) :: more) := by
  obtain @⟨bindings, trailing, hall⟩ := h
  rw [append_separated]
  exact .list (List.forall_mem_cons.2 ⟨hb, hall⟩)

theorem derivesAssignments_of_toOption {ts : List Token} {found : List (String × Expr)}
    (h : (assignments ts).toOption = some found) : DerivesAssignments ts found := by
  induction hn : ts.length using Nat.strongRecOn generalizing ts found with
  | _ n ih =>
    subst hn
    cases ts with
    | nil =>
        cases toOption_assignments_nil.symm.trans h
        have hall : ∀ b ∈ ([] : List Binding), b.IsDerived := by simp
        have hlist : DerivesAssignments (separated .semicolon false []) _ := .list hall
        exact hlist
    | cons t us =>
        rw [toOption_assignments_cons] at h
        obtain ⟨⟨first, rest⟩, hfirst, hrest⟩ := Option.bind_eq_some_iff.1 h
        obtain ⟨b, hb, hsplit, rfl⟩ := exists_binding_of_read? hfirst
        rw [hsplit]
        cases rest with
        | nil =>
            cases hrest
            rw [List.append_nil]
            exact .single hb
        | cons u left =>
            simp only [continued] at hrest
            split at hrest
            · next hu =>
              subst hu
              obtain ⟨more, hmore, rfl⟩ := Option.map_eq_some_iff.1 hrest
              refine .cons hb (ih left.length ?_ hmore rfl)
              rw [hsplit]
              exact length_lt_append_cons b.tokens .semicolon left
            · cases hrest

theorem toOption_of_derivesAssignments {ts : List Token} {found : List (String × Expr)}
    (h : DerivesAssignments ts found) : (assignments ts).toOption = some found := by
  obtain @⟨bindings, trailing, hall⟩ := h
  induction bindings with
  | nil => exact toOption_assignments_nil
  | cons b bindings ih =>
      have hb := hall b List.mem_cons_self
      have hmore := ih fun b' hb' => hall b' (List.mem_cons_of_mem _ hb')
      -- a binding begins with its name, so that there are tokens
      have hstep : ∀ rest : List Token, (rest.head? = none ∨ rest.head? = some .semicolon) →
          (assignments (b.tokens ++ rest)).toOption = continued (b.name, b.value.tree) rest := by
        intro rest hrest
        refine (toOption_assignments_cons _ _).trans ?_
        show (read? (assignment (b.tokens ++ rest))).bind _ = _
        rw [hb.reads_assignment hrest, Option.bind_some]
      by_cases hnext : bindings = [] → trailing = true
      · rw [List.map_cons, separated_cons _ fun hnil => hnext (List.map_eq_nil_iff.1 hnil),
          hstep _ (.inr rfl)]
        simp only [continued, if_true, hmore, Option.map_some, List.map_cons]
      · obtain ⟨rfl, hlast⟩ := Classical.not_imp.1 hnext
        cases Bool.eq_false_iff.2 hlast
        have hsingle := hstep [] (.inl rfl)
        rw [List.append_nil] at hsingle
        exact hsingle

theorem parseAssignments_of_lex {src : List Char} {ts : List Token} (h : lex src = .ok ts) :
    parseAssignments src = assignments ts := by
  rw [parseAssignments, h]
  rfl

/-! ## Texts -/

/-- A text of tokens is read as an expression exactly if they derive it, and as a list of assignments
exactly if they derive that; in every other case there is an error. -/
theorem parse_eq_ok_iff {src : List Char} {ts : List Token} (h : lex src = .ok ts) :
    (∀ e, parse src = .ok e ↔ Derives .disjunction ts e)
      ∧ (∀ found, parseAssignments src = .ok found ↔ DerivesAssignments ts found)
      ∧ ((∀ e, ¬ Derives .disjunction ts e) → ∃ err, parse src = .error err)
      ∧ ((∀ found, ¬ DerivesAssignments ts found) → ∃ err, parseAssignments src = .error err) := by
  have hexpression : ∀ e, parse src = .ok e ↔ Derives .disjunction ts e :=
    fun e => (parse_of_lex h).trans reads?_eq_some_iff
  have hassignments : ∀ found, parseAssignments src = .ok found ↔ DerivesAssignments ts found := by
    intro found
    rw [parseAssignments_of_lex h, ← toOption_eq_some_iff]
    exact ⟨derivesAssignments_of_toOption, toOption_of_derivesAssignments⟩
  refine ⟨hexpression, hassignments, fun hnone => ?_, fun hnone => ?_⟩
  · cases hparse : parse src with
    | error err => exact ⟨err, rfl⟩
    | ok e => exact absurd ((hexpression e).1 hparse) (hnone e)
  · cases hparse : parseAssignments src with
    | error err => exact ⟨err, rfl⟩
    | ok found => exact absurd ((hassignments found).1 hparse) (hnone found)

/-- A condition on a target. -/
def targetText : List Char :=
  "chip not in ('m4', family,) and fpu".toList

def targetTokens : List Token :=
  [.ident "chip", .ident "not", .ident "in", .leftParen, .str "m4", .comma, .ident "family", .comma,
    .rightParen, .ident "and", .ident "fpu"]

/-- The condition is read, and so derived: the comma behind the last item goes with the tuple. -/
theorem parse_eq_ok_iff_targetText :
    lex targetText = .ok targetTokens
      ∧ ((∀ e, parse targetText = .ok e ↔ Derives .disjunction targetTokens e)
        ∧ (∀ found, parseAssignments targetText = .ok found ↔ DerivesAssignments targetTokens found)
        ∧ ((∀ e, ¬ Derives .disjunction targetTokens e) → ∃ err, parse targetText = .error err)
        ∧ ((∀ found, ¬ DerivesAssignments targetTokens found) →
          ∃ err, parseAssignments targetText = .error err))
      ∧ Derives .disjunction targetTokens
          (.and (.mem (.ident "chip") (.tuple [.str "m4", .ident "family"]) true) (.ident "fpu")) := by
  have hlex : lex targetText = .ok targetTokens := by cbv
  have hparse : parse targetText
      = .ok (.and (.mem (.ident "chip") (.tuple [.str "m4", .ident "family"]) true) (.ident "fpu")) := by
    cbv
  exact ⟨hlex, parse_eq_ok_iff hlex, ((parse_eq_ok_iff hlex).1 _).1 hparse⟩

end Configurator.Expr
