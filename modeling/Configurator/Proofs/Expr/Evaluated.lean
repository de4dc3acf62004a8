import Configurator.Proofs.Expr.Literal
import Configurator.Proofs.Outcome

/-!
# What assignments evaluate to

Whatever assignments are read and evaluated, each name is a single identifier and no keyword, and each
value has a literal (`isName_of_evalAssignments`). Both hold of tokens, and a derivation adds no name
and no integer to those of its tokens.
-/

namespace Configurator.Expr

open Text (isBlank)

/-! ## Tokens -/

/-- What holds of every token that is read from a text. -/
def Token.IsSound : Token → Prop
  | .int n => Text.Integer.least < n ∧ n ≤ Text.Integer.greatest
  | .ident name => IsName name
  | _ => True

theorem nonneg_of_readMagnitude? {cs : List Char} (hcs : ∀ c ∈ cs, c.isAlphanum = true) {n : Int}
    (h : readMagnitude? cs = some n) : 0 ≤ n ∧ n ≤ Text.Integer.greatest := by
  have hsign : ∀ ds : List Char, (∀ c ∈ ds, c ∈ cs) → ds.head? ≠ some '-' := by
    intro ds hds hhead
    have hdash := hcs '-' (hds '-' (List.mem_of_mem_head? hhead))
    simp at hdash
  have hread : ∀ base ds, (∀ c ∈ ds, c ∈ cs) → Text.Integer.read? base ds = some n →
      0 ≤ n ∧ n ≤ Text.Integer.greatest := fun base ds hds h =>
    ⟨Text.Integer.nonneg_of_read? (hsign ds hds) h, (Text.Integer.inRange_of_read? h).2⟩
  unfold readMagnitude? at h
  split at h
  · exact hread 16 _ (fun c hc => by simp [hc]) h
  · exact hread 16 _ (fun c hc => by simp [hc]) h
  · exact hread 10 _ (fun c hc => hc) h

/-- The magnitude of an integer has no sign of its own, so that its sign cannot reach the least one. -/
theorem isSound_of_readInteger? {c : Char} {cs : List Char}
    (hc : c.isDigit = true ∨ isSign c = true) (hcs : ∀ d ∈ cs, d.isAlphanum = true) {n : Int}
    (h : readInteger? (c :: cs) = some n) : (Token.int n).IsSound := by
  have hpositive : 0 ≤ n ∧ n ≤ Text.Integer.greatest → (Token.int n).IsSound := by
    simp only [Token.IsSound, Text.Integer.least, Text.Integer.greatest]
    omega
  unfold readInteger? at h
  split at h
  · next heq =>
    cases heq
    obtain ⟨m, hm, rfl⟩ := Option.map_eq_some_iff.1 h
    have := nonneg_of_readMagnitude? hcs hm
    simp only [Token.IsSound, Text.Integer.least, Text.Integer.greatest] at this ⊢
    omega
  · next heq =>
    cases heq
    exact hpositive (nonneg_of_readMagnitude? hcs h)
  · next hminus hplus =>
    refine hpositive (nonneg_of_readMagnitude? (List.forall_mem_cons.2 ⟨?_, hcs⟩) h)
    rcases hc with hc | hc
    · simp [Char.isAlphanum, hc]
    · simp only [isSign, Bool.or_eq_true, beq_iff_eq] at hc
      rcases hc with rfl | rfl
      · exact absurd rfl (hminus cs)
      · exact absurd rfl (hplus cs)

theorem isSound_of_leadingToken {offset : Nat} {c : Char} {cs after : List Char} {t : Token}
    (hblank : isBlank c = false) (h : leadingToken offset c cs = .ok (t, after)) : t.IsSound := by
  unfold leadingToken at h
  split at h
  case h_1 | h_2 | h_3 | h_4 | h_5 | h_6 =>
    cases h
    trivial
  case h_7 | h_8 =>
    split at h <;> cases h
    all_goals trivial
  case h_9 =>
    split at h
    · split at h <;> cases h
      trivial
    · split at h
      · next hc =>
        dsimp only at h
        split at h <;> cases h
        next hread => exact isSound_of_readInteger? hc (fun d => List.mem_takeWhile_imp) hread
      · split at h <;> cases h
        next hstart =>
          exact ⟨c, _, String.toList_ofList, hblank, hstart, fun d => List.mem_takeWhile_imp⟩

theorem isSound_of_lexFrom {size : Nat} {cs : List Char} {ts : List Token}
    (h : lexFrom size cs = .ok ts) : ∀ t ∈ ts, t.IsSound := by
  fun_induction lexFrom size cs generalizing ts with
  | case1 | case3 =>
      cases h
      simp
  | case2 c rest _ ih => exact ih h
  | case4 => cases h
  | case5 c rest hblank _ t after ht ih =>
      cases hafter : lexFrom size after with
      | error e =>
          rw [hafter] at h
          cases h
      | ok us =>
          rw [hafter] at h
          cases h
          exact List.forall_mem_cons.2
            ⟨isSound_of_leadingToken (by simpa using hblank) ht, ih hafter⟩

/-! ## Values -/

theorem mem_separated {separator t : Token} {ts : List Token} (ht : t ∈ ts) (trailing : Bool)
    {all : List (List Token)} (hts : ts ∈ all) : t ∈ separated separator trailing all := by
  induction all with
  | nil => cases hts
  | cons us more ih =>
      rcases List.mem_cons.1 hts with rfl | hts
      · obtain ⟨vs, hvs⟩ := exists_separated_cons separator trailing ts more
        rw [hvs]
        exact List.mem_append_left _ ht
      · rw [separated_cons _ fun hnil => by simp [hnil] at hts]
        exact List.mem_append_right _ (List.mem_cons_of_mem _ (ih hts))

/-- Operands joined by an operator that gives truth values: the first one if it is alone. -/
theorem hasLiteral_foldl {op : Expr → Expr → Expr} {env : Environment}
    (hop : ∀ lhs rhs v, eval env (op lhs rhs) = .ok v → ∃ b, v = .bool b) {first : Expr}
    (hfirst : ∀ v, eval env first = .ok v → v.HasLiteral) (others : List Expr) {v : Value}
    (h : eval env (others.foldl op first) = .ok v) : v.HasLiteral := by
  induction others using List.reverseRecOn with
  | nil => exact hfirst v h
  | append_singleton others last _ =>
      rw [List.foldl_append] at h
      obtain ⟨b, rfl⟩ := hop _ _ v h
      exact .bool b

theorem exists_bool_of_truthOf {r : Except Error Value} {v : Value} (h : eval.truthOf r = .ok v) :
    ∃ b, v = .bool b := by
  cases r <;> cases h
  exact ⟨_, rfl⟩

theorem exists_bool_of_eval_or {env : Environment} {lhs rhs : Expr} {v : Value}
    (h : eval env (.or lhs rhs) = .ok v) : ∃ b, v = .bool b := by
  rw [eval] at h
  split at h
  · split at h
    · cases h
      exact ⟨_, rfl⟩
    · exact exists_bool_of_truthOf h
  · cases h

theorem exists_bool_of_eval_and {env : Environment} {lhs rhs : Expr} {v : Value}
    (h : eval env (.and lhs rhs) = .ok v) : ∃ b, v = .bool b := by
  rw [eval] at h
  split at h
  · split at h
    · exact exists_bool_of_truthOf h
    · cases h
      exact ⟨_, rfl⟩
  · cases h

theorem exists_bool_of_eval_not {env : Environment} {e : Expr} {v : Value}
    (h : eval env (.not e) = .ok v) : ∃ b, v = .bool b := by
  rw [eval] at h
  split at h <;> cases h
  exact ⟨_, rfl⟩

theorem exists_bool_of_compares {words : List Token} {op : Expr → Expr → Expr}
    (hop : Compares words op) {env : Environment} {lhs rhs : Expr} {v : Value}
    (h : eval env (op lhs rhs) = .ok v) : ∃ b, v = .bool b := by
  cases hop with
  | mem | notMem =>
      rw [eval] at h
      split at h
      · split at h <;> cases h
        exact ⟨_, rfl⟩
      · cases h
      · cases h
  | equal | notEqual =>
      rw [eval] at h
      split at h <;> cases h
      exact ⟨_, rfl⟩

theorem hasLiteral_of_evalAll {env : Environment} {es : List Expr}
    (h : ∀ e ∈ es, ∀ v, eval env e = .ok v → v.HasLiteral) {vs : List Value}
    (hvs : evalAll env es = .ok vs) : ∀ v ∈ vs, v.HasLiteral := by
  induction es generalizing vs with
  | nil =>
      cases hvs
      simp
  | cons e es ih =>
      obtain ⟨he, hes⟩ := List.forall_mem_cons.1 h
      rw [evalAll] at hvs
      split at hvs
      · next v hv =>
        split at hvs <;> cases hvs
        next us hus => exact List.forall_mem_cons.2 ⟨he v hv, ih hes hus⟩
      · cases hvs

theorem hasLiteral_of_eval_tuple {env : Environment} {es : List Expr}
    (h : ∀ e ∈ es, ∀ v, eval env e = .ok v → v.HasLiteral) {v : Value}
    (hv : eval env (.tuple es) = .ok v) : v.HasLiteral := by
  rw [eval] at hv
  split at hv <;> cases hv
  next vs hvs => exact .tuple (hasLiteral_of_evalAll h hvs)

/-- What an expression evaluates to without identifiers has a literal if its tokens are sound. -/
theorem Derives.hasLiteral {category : Category} {ts : List Token} {e : Expr}
    (h : Derives category ts e) (hts : ∀ t ∈ ts, t.IsSound) :
    ∀ v, eval .empty e = .ok v → v.HasLiteral := by
  have hpiece : ∀ {separator : Token} {trailing : Bool} {pieces : List Piece},
      (∀ t ∈ separated separator trailing (pieces.map (·.tokens)), t.IsSound) →
      ∀ p ∈ pieces, ∀ t ∈ p.tokens, t.IsSound := fun hall p hp t ht =>
    hall t (mem_separated ht _ (List.mem_map_of_mem hp))
  induction h with
  | disjunction _ ih =>
      exact fun v hv => hasLiteral_foldl (fun _ _ _ => exists_bool_of_eval_or)
        (ih _ List.mem_cons_self (hpiece hts _ List.mem_cons_self)) _ hv
  | conjunction _ ih =>
      exact fun v hv => hasLiteral_foldl (fun _ _ _ => exists_bool_of_eval_and)
        (ih _ List.mem_cons_self (hpiece hts _ List.mem_cons_self)) _ hv
  | not _ _ =>
      intro v hv
      obtain ⟨b, rfl⟩ := exists_bool_of_eval_not hv
      exact .bool b
  | negation _ ih | comparison _ ih => exact ih hts
  | compare _ hop _ _ _ =>
      intro v hv
      obtain ⟨b, rfl⟩ := exists_bool_of_compares hop hv
      exact .bool b
  | str s =>
      rintro v ⟨⟩
      exact .str s
  | int n =>
      have hn : (Token.int n).IsSound := hts _ (List.mem_singleton_self _)
      rintro v ⟨⟩
      exact .int hn.1 hn.2
  | trueWord | falseWord =>
      rintro v ⟨⟩
      exact .bool _
  | ident => rintro v ⟨⟩
  | group _ ih => exact ih fun t ht => hts t (by simp [ht])
  | parentheses _ _ ih | brackets _ ih =>
      refine fun v hv => hasLiteral_of_eval_tuple (fun e he => ?_) hv
      obtain ⟨p, hp, rfl⟩ := List.mem_map.1 he
      exact ih p hp fun t ht => hts t (by simp [mem_separated ht _ (List.mem_map_of_mem hp)])

theorem DerivesValue.hasLiteral {ts : List Token} {e : Expr} (h : DerivesValue ts e)
    (hts : ∀ t ∈ ts, t.IsSound) : ∀ v, eval .empty e = .ok v → v.HasLiteral := by
  have htuple : ∀ {trailing : Bool} {pieces : List Piece},
      (∀ p ∈ pieces, Derives .disjunction p.tokens p.tree) →
      (∀ t ∈ separated .comma trailing (pieces.map (·.tokens)), t.IsSound) →
      ∀ v, eval .empty (.tuple (pieces.map (·.tree))) = .ok v → v.HasLiteral := by
    intro trailing pieces hpieces hall v hv
    refine hasLiteral_of_eval_tuple (fun e he => ?_) hv
    obtain ⟨p, hp, rfl⟩ := List.mem_map.1 he
    exact (hpieces p hp).hasLiteral fun t ht => hall t (mem_separated ht _ (List.mem_map_of_mem hp))
  cases h with
  | single h => exact h.hasLiteral hts
  | trailing hpieces _ => exact htuple hpieces hts
  | bare hpieces _ => exact htuple hpieces hts

/-! ## Assignments -/

theorem isName_of_derivesAssignments {ts : List Token} {found : List (String × Expr)}
    (h : DerivesAssignments ts found) (hts : ∀ t ∈ ts, t.IsSound) :
    ∀ a ∈ found, IsName a.1 ∧ a.1 ∉ keywords
      ∧ ∀ v, eval .empty a.2 = .ok v → v.HasLiteral := by
  obtain @⟨bindings, trailing, hall⟩ := h
  intro a ha
  obtain ⟨b, hb, rfl⟩ := List.mem_map.1 ha
  have htokens : ∀ t ∈ b.tokens, t.IsSound := fun t ht =>
    hts t (mem_separated ht _ (List.mem_map_of_mem hb))
  refine ⟨htokens (.ident b.name) List.mem_cons_self, (hall b hb).name, ?_⟩
  exact (hall b hb).value.hasLiteral fun t ht =>
    htokens t (List.mem_cons_of_mem _ (List.mem_cons_of_mem _ ht))

/-- Every assignment that is read and evaluated gives a name a value that has a literal. -/
theorem isName_of_evalAssignments {src : List Char} {found : List (String × Value)}
    (h : evalAssignments src = .ok found) :
    ∀ a ∈ found, IsName a.1 ∧ a.1 ∉ keywords ∧ a.2.HasLiteral := by
  simp only [evalAssignments, Outcome.bind_eq_ok_iff, Outcome.mapM_eq_ok_iff] at h
  obtain ⟨assigned, hassigned, hvalues⟩ := h
  obtain ⟨ts, hts, hparse⟩ := Outcome.bind_eq_ok_iff.1 hassigned
  have hnames := isName_of_derivesAssignments
    (derivesAssignments_of_toOption (Outcome.toOption_eq_some_iff.2 hparse)) (isSound_of_lexFrom hts)
  intro a ha
  obtain ⟨⟨name, e⟩, he, v, hv, heq⟩ := exists_of_forall₂ hvalues ha
  cases heq
  exact ⟨(hnames _ he).1, (hnames _ he).2.1, (hnames _ he).2.2 v hv⟩

end Configurator.Expr
