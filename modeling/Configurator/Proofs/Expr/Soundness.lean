import Configurator.Proofs.Expr.Reading

/-!
# What is read is derived

The tokens that a reader took derive the tree that it found (`derives_of_reads?`). The readers call each
other in a circle that only closes through brackets, so that the proof goes by the number of tokens:
given the claim for what stands in brackets, it is shown for one category after the other, from atoms
to disjunctions.
-/

namespace Configurator.Expr

/-- Whether what is read of a category from the beginning of `ts` is derived. -/
def Sound (category : Category) (ts : List Token) : Prop :=
  ∀ e rest, reads? category ts = some (e, rest) → ∃ us, ts = us ++ rest ∧ Derives category us e

/-! ## Words -/

theorem exists_words_of_comparator? {ts rest : List Token} {op : Expr → Expr → Expr}
    (h : comparator? ts = some (op, rest)) : ∃ words, Compares words op ∧ ts = words ++ rest := by
  unfold comparator? at h
  split at h
  · cases h
    exact ⟨_, .equal, rfl⟩
  · cases h
    exact ⟨_, .notEqual, rfl⟩
  · split at h
    · next hword =>
      cases h
      exact ⟨_, .mem, by rw [hword]; rfl⟩
    · split at h
      · next hword =>
        obtain ⟨behind, hbehind, heq⟩ := Option.map_eq_some_iff.1 h
        cases heq
        rw [after?_eq_some_iff.1 hbehind, hword]
        exact ⟨_, .notMem, rfl⟩
      · cases h
  · cases h

theorem derives_of_operandOfIdent? {name : String} {e : Expr} (h : operandOfIdent? name = some e) :
    Derives .atom [.ident name] e := by
  unfold operandOfIdent? at h
  split at h
  · next hname =>
    cases h
    exact .trueWord (by simpa using hname)
  · next htrue =>
    split at h
    · next hname =>
      cases h
      exact .falseWord (by simpa using hname)
    · next hfalse =>
      split at h
      · cases h
      · next hother =>
        cases h
        exact .ident (by simp_all [operators])

/-! ## Operands between operators -/

theorem length_lt_append_cons (ts : List Token) (t : Token) (us : List Token) :
    us.length < (ts ++ t :: us).length := by
  simp only [List.length_append, List.length_cons]
  omega

theorem sound_chain {operator : Token} {category : Category}
    {more : List Token → Option ((Expr × List Expr) × List Token)}
    (hmore : ∀ us, more us = chain operator (reads? category) more us)
    {ts : List Token} (hcategory : ∀ us, us.length ≤ ts.length → Sound category us)
    {operands : Expr × List Expr} {rest : List Token} (h : more ts = some (operands, rest)) :
    ∃ (first : Piece) (others : List Piece), operands = (first.tree, others.map (·.tree))
      ∧ ts = separated operator false ((first :: others).map (·.tokens)) ++ rest
      ∧ ∀ p ∈ first :: others, Derives category p.tokens p.tree := by
  -- on the number of tokens, since `more` is known by its equation only
  induction hn : ts.length using Nat.strongRecOn generalizing ts operands rest with
  | _ n ih =>
    subst hn
    rw [hmore, chain] at h
    obtain ⟨⟨e, behind⟩, hfirst, hbehind⟩ := Option.bind_eq_some_iff.1 h
    obtain ⟨us, rfl, hus⟩ := hcategory ts (Nat.le_refl _) e behind hfirst
    cases hafter : after? operator behind with
    | none =>
        simp only [hafter, Option.some.injEq, Prod.mk.injEq] at hbehind
        obtain ⟨rfl, rfl⟩ := hbehind
        exact ⟨⟨us, e⟩, [], rfl, rfl, by simpa using hus⟩
    | some left =>
        simp only [hafter, Option.map_eq_some_iff] at hbehind
        obtain ⟨⟨found, left'⟩, hfound, heq⟩ := hbehind
        cases heq
        cases after?_eq_some_iff.1 hafter
        have hshort := length_lt_append_cons us operator left
        obtain ⟨second, others, rfl, rfl, hall⟩ := ih left.length hshort
          (fun ws hws => hcategory ws (Nat.le_trans hws (Nat.le_of_lt hshort))) hfound rfl
        refine ⟨⟨us, e⟩, second :: others, rfl, ?_, ?_⟩
        · simp [separated_cons]
        · exact List.forall_mem_cons.2 ⟨hus, hall⟩

/-! ## Pieces between commas -/

/-- Pieces of a category that a list was read from. A list of one piece says whether a comma was
behind it. -/
structure ReadFrom (found : List Expr × Bool) (pieces : List Piece) (trailing : Bool) : Prop where
  trees : found.1 = pieces.map (·.tree)
  comma : pieces.length = 1 → found.2 = trailing
  derives : ∀ p ∈ pieces, Derives .disjunction p.tokens p.tree

theorem ReadFrom.single {us : List Token} {e : Expr} (hus : Derives .disjunction us e)
    (trailing : Bool) : ReadFrom ([e], trailing) [⟨us, e⟩] trailing :=
  ⟨rfl, fun _ => rfl, by simpa using hus⟩

theorem ReadFrom.cons {us : List Token} {e : Expr} (hus : Derives .disjunction us e)
    {found : List Expr × Bool} {pieces : List Piece} {trailing trailing' : Bool}
    (h : ReadFrom found pieces trailing) (hcomma : pieces = [] → trailing' = true) :
    ReadFrom (e :: found.1, true) (⟨us, e⟩ :: pieces) trailing' := by
  refine ⟨congrArg _ h.trees, fun hone => ?_, List.forall_mem_cons.2 ⟨hus, h.derives⟩⟩
  rw [List.length_cons, Nat.add_eq_right] at hone
  exact (hcomma (List.eq_nil_of_length_eq_zero hone)).symm

theorem sound_sequence {close : Token} {ts : List Token}
    (hdisjunction : ∀ us, us.length ≤ ts.length → Sound .disjunction us)
    {found : List Expr × Bool} {rest : List Token}
    (h : read? (sequence close ts) = some (found, rest)) :
    ∃ pieces trailing, ReadFrom found pieces trailing
      ∧ ts = separated .comma trailing (pieces.map (·.tokens)) ++ close :: rest := by
  induction hn : ts.length using Nat.strongRecOn generalizing ts found rest with
  | _ n ih =>
    subst hn
    rw [read?_sequence] at h
    cases hclose : after? close ts with
    | some left =>
        simp only [hclose, Option.some.injEq, Prod.mk.injEq] at h
        obtain ⟨rfl, rfl⟩ := h
        exact ⟨[], false, ⟨rfl, by simp, by simp⟩, after?_eq_some_iff.1 hclose⟩
    | none =>
        simp only [hclose] at h
        obtain ⟨⟨e, behind⟩, hfirst, hbehind⟩ := Option.bind_eq_some_iff.1 h
        obtain ⟨us, rfl, hus⟩ := hdisjunction ts (Nat.le_refl _) e behind hfirst
        cases hcomma : after? .comma behind with
        | none =>
            simp only [hcomma, Option.map_eq_some_iff] at hbehind
            obtain ⟨left, hleft, heq⟩ := hbehind
            cases heq
            exact ⟨[⟨us, e⟩], false, .single hus false, by simp [separated, after?_eq_some_iff.1 hleft]⟩
        | some left =>
            simp only [hcomma, Option.map_eq_some_iff] at hbehind
            obtain ⟨⟨more, left'⟩, hmore, heq⟩ := hbehind
            cases heq
            cases after?_eq_some_iff.1 hcomma
            have hshort := length_lt_append_cons us .comma left
            obtain ⟨pieces, trailing, hread, hsplit⟩ := ih left.length hshort
              (fun ws hws => hdisjunction ws (Nat.le_trans hws (Nat.le_of_lt hshort))) hmore rfl
            -- a comma behind the last piece is a trailing one
            refine ⟨⟨us, e⟩ :: pieces, pieces.isEmpty || trailing, .cons hus hread ?_, ?_⟩
            · rintro rfl
              rfl
            · rw [hsplit, List.map_cons, ← List.isEmpty_map, ← append_separated]
              simp

theorem sound_bareSequence {ts : List Token}
    (hdisjunction : ∀ us, us.length ≤ ts.length → Sound .disjunction us)
    {found : List Expr × Bool} {rest : List Token}
    (h : read? (bareSequence ts) = some (found, rest)) :
    ∃ pieces trailing, ReadFrom found pieces trailing ∧ pieces ≠ []
      ∧ ts = separated .comma trailing (pieces.map (·.tokens)) ++ rest := by
  induction hn : ts.length using Nat.strongRecOn generalizing ts found rest with
  | _ n ih =>
    subst hn
    rw [read?_bareSequence] at h
    obtain ⟨⟨e, behind⟩, hfirst, hbehind⟩ := Option.bind_eq_some_iff.1 h
    obtain ⟨us, rfl, hus⟩ := hdisjunction ts (Nat.le_refl _) e behind hfirst
    cases hcomma : after? .comma behind with
    | none =>
        simp only [hcomma, Option.some.injEq, Prod.mk.injEq] at hbehind
        obtain ⟨rfl, rfl⟩ := hbehind
        exact ⟨[⟨us, e⟩], false, .single hus false, List.cons_ne_nil _ _, rfl⟩
    | some left =>
        cases after?_eq_some_iff.1 hcomma
        simp only [hcomma] at hbehind
        split at hbehind
        · simp only [Option.some.injEq, Prod.mk.injEq] at hbehind
          obtain ⟨rfl, rfl⟩ := hbehind
          exact ⟨[⟨us, e⟩], true, .single hus true, List.cons_ne_nil _ _, by simp [separated]⟩
        · obtain ⟨⟨more, left'⟩, hmore, heq⟩ := Option.map_eq_some_iff.1 hbehind
          cases heq
          have hshort := length_lt_append_cons us .comma left
          obtain ⟨pieces, trailing, hread, hsome, rfl⟩ := ih left.length hshort
            (fun ws hws => hdisjunction ws (Nat.le_trans hws (Nat.le_of_lt hshort))) hmore rfl
          refine ⟨⟨us, e⟩ :: pieces, trailing, .cons hus hread fun hnil => absurd hnil hsome,
            List.cons_ne_nil _ _, ?_⟩
          rw [List.map_cons, separated_cons us fun hnil => absurd (List.map_eq_nil_iff.1 hnil) hsome]
          simp

theorem ReadFrom.parenthesized_eq {found : List Expr × Bool} {pieces : List Piece} {trailing : Bool}
    (h : ReadFrom found pieces trailing) :
    (∃ p, pieces = [p] ∧ trailing = false ∧ parenthesized found.1 found.2 = p.tree)
      ∨ ((pieces.length ≠ 1 ∨ trailing = true)
        ∧ parenthesized found.1 found.2 = .tuple (pieces.map (·.tree))) := by
  obtain ⟨trees, comma⟩ := found
  obtain ⟨rfl, hcomma, -⟩ := h
  match pieces with
  | [] => exact .inr ⟨.inl (by simp), rfl⟩
  | [p] =>
      cases hcomma rfl
      cases comma with
      | true => exact .inr ⟨.inr rfl, rfl⟩
      | false => exact .inl ⟨p, rfl, rfl, rfl⟩
  | _ :: _ :: _ => exact .inr ⟨.inl (by simp), rfl⟩

/-! ## One category after the other -/

section

variable {ts : List Token}

theorem sound_atom (hinner : ∀ us, us.length < ts.length → Sound .disjunction us) :
    Sound .atom ts := by
  intro e rest h
  rw [reads?_atom] at h
  have hsequence : ∀ {open' close : Token} {left : List Token} {found : List Expr × Bool},
      ts = open' :: left → read? (sequence close left) = some (found, rest) →
      ∃ pieces trailing, ReadFrom found pieces trailing
        ∧ ts = (open' :: separated .comma trailing (pieces.map (·.tokens)) ++ [close]) ++ rest := by
    rintro open' close left found rfl hfound
    obtain ⟨pieces, trailing, hread, rfl⟩ := sound_sequence
      (fun us hus => hinner us (by simp only [List.length_cons]; omega)) hfound
    exact ⟨pieces, trailing, hread, by simp⟩
  split at h
  · cases h
    exact ⟨_, rfl, .str _⟩
  · cases h
    exact ⟨_, rfl, .int _⟩
  · obtain ⟨tree, htree, heq⟩ := Option.map_eq_some_iff.1 h
    cases heq
    exact ⟨_, rfl, derives_of_operandOfIdent? htree⟩
  · obtain ⟨⟨found, left⟩, hfound, heq⟩ := Option.map_eq_some_iff.1 h
    cases heq
    obtain ⟨pieces, trailing, hread, hsplit⟩ := hsequence rfl hfound
    refine ⟨_, hsplit, ?_⟩
    show Derives .atom _ (parenthesized found.1 found.2)
    rcases hread.parenthesized_eq with ⟨p, rfl, rfl, htree⟩ | ⟨hcomma, htree⟩
    · rw [htree]
      exact .group (hread.derives p (List.mem_singleton_self p))
    · rw [htree]
      exact .parentheses hread.derives hcomma
  · obtain ⟨⟨found, left⟩, hfound, heq⟩ := Option.map_eq_some_iff.1 h
    cases heq
    obtain ⟨pieces, trailing, hread, hsplit⟩ := hsequence rfl hfound
    refine ⟨_, hsplit, ?_⟩
    show Derives .atom _ (.tuple found.1)
    rw [hread.trees]
    exact .brackets hread.derives
  · cases h

theorem sound_comparison (hatom : ∀ us, us.length ≤ ts.length → Sound .atom us) :
    Sound .comparison ts := by
  intro e rest h
  rw [reads?_comparison] at h
  obtain ⟨⟨lhs, behind⟩, hleft, hbehind⟩ := Option.bind_eq_some_iff.1 h
  obtain ⟨us, rfl, hus⟩ := hatom ts (Nat.le_refl _) lhs behind hleft
  cases hop : comparator? behind with
  | none =>
      simp only [hop, Option.some.injEq, Prod.mk.injEq] at hbehind
      obtain ⟨rfl, rfl⟩ := hbehind
      exact ⟨us, rfl, .comparison hus⟩
  | some found =>
      obtain ⟨op, left⟩ := found
      obtain ⟨words, hwords, rfl⟩ := exists_words_of_comparator? hop
      simp only [hop, Option.map_eq_some_iff] at hbehind
      obtain ⟨⟨rhs, left'⟩, hright, heq⟩ := hbehind
      cases heq
      obtain ⟨ws, rfl, hws⟩ := hatom left (by simp only [List.length_append]; omega) rhs left' hright
      exact ⟨us ++ words ++ ws, by simp, .compare hus hwords hws⟩

theorem sound_negation (hcomparison : ∀ us, us.length ≤ ts.length → Sound .comparison us) :
    Sound .negation ts := by
  induction hn : ts.length using Nat.strongRecOn generalizing ts with
  | _ n ih =>
    subst hn
    intro e rest h
    rw [reads?_negation] at h
    split at h
    · obtain ⟨us, rfl, hus⟩ := hcomparison ts (Nat.le_refl _) e rest h
      exact ⟨us, rfl, .negation hus⟩
    · next left hnot =>
      cases after?_eq_some_iff.1 hnot
      obtain ⟨⟨inner, left'⟩, hinner, heq⟩ := Option.map_eq_some_iff.1 h
      cases heq
      obtain ⟨us, rfl, hus⟩ := ih left.length (by simp)
        (fun ws hws => hcomparison ws (by simp only [List.length_cons]; omega)) rfl inner left' hinner
      exact ⟨_, rfl, .not hus⟩

theorem sound_conjunction (hnegation : ∀ us, us.length ≤ ts.length → Sound .negation us) :
    Sound .conjunction ts := by
  intro e rest h
  obtain ⟨⟨operands, left⟩, hfound, heq⟩ := Option.map_eq_some_iff.1 h
  cases heq
  obtain ⟨first, others, rfl, rfl, hall⟩ := sound_chain read?_conjuncts hnegation hfound
  exact ⟨_, rfl, .conjunction hall⟩

theorem sound_disjunction (hconjunction : ∀ us, us.length ≤ ts.length → Sound .conjunction us) :
    Sound .disjunction ts := by
  intro e rest h
  obtain ⟨⟨operands, left⟩, hfound, heq⟩ := Option.map_eq_some_iff.1 h
  cases heq
  obtain ⟨first, others, rfl, rfl, hall⟩ := sound_chain read?_disjuncts hconjunction hfound
  exact ⟨_, rfl, .disjunction hall⟩

end

theorem derives_of_reads? (ts : List Token) : Sound .disjunction ts := by
  induction hn : ts.length using Nat.strongRecOn generalizing ts with
  | _ n ih =>
    subst hn
    have hinner : ∀ us, us.length < ts.length → Sound .disjunction us :=
      fun us hus => ih us.length hus us rfl
    have hatom : ∀ us, us.length ≤ ts.length → Sound .atom us :=
      fun us hus => sound_atom fun ws hws => hinner ws (by omega)
    have hcomparison : ∀ us, us.length ≤ ts.length → Sound .comparison us :=
      fun us hus => sound_comparison fun ws hws => hatom ws (by omega)
    have hnegation : ∀ us, us.length ≤ ts.length → Sound .negation us :=
      fun us hus => sound_negation fun ws hws => hcomparison ws (by omega)
    have hconjunction : ∀ us, us.length ≤ ts.length → Sound .conjunction us :=
      fun us hus => sound_conjunction fun ws hws => hnegation ws (by omega)
    exact sound_disjunction hconjunction

end Configurator.Expr
