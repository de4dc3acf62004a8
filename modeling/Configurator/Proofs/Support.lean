import Configurator.Proofs.NameMap
import Configurator.Proofs.Outcome
import Configurator.Support

/-!
# Support where more tags are known

A tag that is known but does not hold only keeps an expression from failing: in an environment with
more identifiers an expression comes to what it came to before, unless one of the new identifiers was
what it failed for (`Expr.lacks_eval`). So a decided expression stays decided when more tags are
declared (`TagEnvironment.evalSupports_of_subset`), because the facts of a CPU go before the declaration
of tags wherever both speak of one tag (`TagEnvironment.get?_ofFacts`).
-/

namespace Configurator

namespace Expr

/-! ## Evaluation step by step -/

section

variable (env : Environment)

theorem eval_tuple (items : List Expr) :
    eval env (.tuple items) = evalAll env items >>= fun vs => .ok (.tuple vs) := by
  rw [eval]
  cases evalAll env items <;> rfl

theorem eval_not (e : Expr) :
    eval env (.not e) = eval env e >>= fun v => .ok (.bool !v.truthy) := by
  rw [eval]
  cases eval env e <;> rfl

theorem truthOf_eq (r : Except Error Value) :
    eval.truthOf r = r >>= fun v => .ok (.bool v.truthy) := by
  cases r <;> rfl

theorem eval_and (lhs rhs : Expr) :
    eval env (.and lhs rhs) = eval env lhs >>= fun v =>
      if v.truthy then eval env rhs >>= fun w => .ok (.bool w.truthy) else .ok (.bool false) := by
  rw [eval, truthOf_eq]
  cases eval env lhs <;> rfl

theorem eval_or (lhs rhs : Expr) :
    eval env (.or lhs rhs) = eval env lhs >>= fun v =>
      if v.truthy then .ok (.bool true) else eval env rhs >>= fun w => .ok (.bool w.truthy) := by
  rw [eval, truthOf_eq]
  cases eval env lhs <;> rfl

theorem eval_mem (item container : Expr) (negated : Bool) :
    eval env (.mem item container negated) = eval env item >>= fun v => eval env container >>= fun w =>
      member v w >>= fun found => .ok (.bool (found != negated)) := by
  rw [eval]
  cases eval env item with
  | error e => rfl
  | ok v =>
      cases eval env container with
      | error e => rfl
      | ok w =>
          show _ = member v w >>= _
          dsimp only
          cases member v w <;> rfl

theorem eval_eq (lhs rhs : Expr) (negated : Bool) :
    eval env (.eq lhs rhs negated) = eval env lhs >>= fun v => eval env rhs >>= fun w =>
      .ok (.bool (decide (v = w) != negated)) := by
  rw [eval]
  cases eval env lhs with
  | error e => rfl
  | ok v => cases eval env rhs <;> rfl

theorem evalAll_cons (e : Expr) (es : List Expr) :
    evalAll env (e :: es) = eval env e >>= fun v => evalAll env es >>= fun vs => .ok (v :: vs) := by
  rw [evalAll]
  cases eval env e with
  | error err => rfl
  | ok v =>
      show _ = evalAll env es >>= _
      dsimp only
      cases evalAll env es <;> rfl

end

/-! ## More identifiers -/

variable {env env' : Environment} {α β : Type}

/-- Whether an environment gives all identifiers of another one the same values. -/
def Extends (env env' : Environment) : Prop :=
  ∀ name v, env name = some v → env' name = some v

/-- Whether a first outcome is a second one, or the error of an identifier that only the second
environment has. -/
def Lacks (env env' : Environment) (r r' : Except Error α) : Prop :=
  r = r' ∨ ∃ name, env name = none ∧ env' name ≠ none ∧ r = .error (.unknownIdentifier name)

theorem Lacks.refl (r : Except Error α) : Lacks env env' r r :=
  .inl rfl

theorem Lacks.bind {r r' : Except Error α} {f f' : α → Except Error β} (h : Lacks env env' r r')
    (hnext : ∀ a, Lacks env env' (f a) (f' a)) : Lacks env env' (r >>= f) (r' >>= f') := by
  rcases h with rfl | ⟨name, hnone, hsome, rfl⟩
  · cases r with
    | error e => exact .refl _
    | ok a => exact hnext a
  · exact .inr ⟨name, hnone, hsome, rfl⟩

theorem Lacks.ite {c : Prop} [Decidable c] {r r' s s' : Except Error α} (h : Lacks env env' r r')
    (h' : Lacks env env' s s') : Lacks env env' (if c then r else s) (if c then r' else s') := by
  split
  · exact h
  · exact h'

mutual

/-- With more identifiers an expression comes to the same, unless it failed for want of one of them. -/
theorem lacks_eval (h : Extends env env') : (e : Expr) → Lacks env env' (eval env e) (eval env' e)
  | .str _ | .int _ | .bool _ => .refl _
  | .ident name => by
      rw [eval, eval]
      cases hname : env name with
      | some v => rw [h name v hname]; exact .refl _
      | none =>
          cases hname' : env' name with
          | none => exact .refl _
          | some v => exact .inr ⟨name, hname, by simp [hname'], rfl⟩
  | .tuple items => by
      rw [eval_tuple, eval_tuple]
      exact (lacks_evalAll h items).bind fun _ => .refl _
  | .not e => by
      rw [eval_not, eval_not]
      exact (lacks_eval h e).bind fun _ => .refl _
  | .and lhs rhs => by
      rw [eval_and, eval_and]
      exact (lacks_eval h lhs).bind fun _ => .ite ((lacks_eval h rhs).bind fun _ => .refl _) (.refl _)
  | .or lhs rhs => by
      rw [eval_or, eval_or]
      exact (lacks_eval h lhs).bind fun _ => .ite (.refl _) ((lacks_eval h rhs).bind fun _ => .refl _)
  | .mem item container negated => by
      rw [eval_mem, eval_mem]
      exact (lacks_eval h item).bind fun _ => (lacks_eval h container).bind fun _ => .refl _
  | .eq lhs rhs negated => by
      rw [eval_eq, eval_eq]
      exact (lacks_eval h lhs).bind fun _ => (lacks_eval h rhs).bind fun _ => .refl _

theorem lacks_evalAll (h : Extends env env') :
    (es : List Expr) → Lacks env env' (evalAll env es) (evalAll env' es)
  | [] => .refl _
  | e :: es => by
      rw [evalAll_cons, evalAll_cons]
      exact (lacks_eval h e).bind fun _ => (lacks_evalAll h es).bind fun _ => .refl _

end

end Expr

namespace TagEnvironment

variable {known known' cpuTags : List String} {cpuName toolchain tag : String}

/-! ## What holds for a CPU -/

/-- The tags that hold for a CPU. -/
def facts (cpuName : String) (cpuTags : List String) (toolchain : String) : List String :=
  cpuName :: cpuTags ++ if toolchain = "" then [] else [toolchain]

theorem get?_ofKnown (known : List String) (tag : String) :
    (ofKnown known).tags.get? tag = if tag ∈ known then some false else none := by
  unfold ofKnown
  cases hget : (NameMap.ofList (known.map (·, false))).get? tag with
  | none =>
      have habsent : tag ∉ known := fun hmem => by
        have hkey : tag ∈ (NameMap.ofList (known.map (·, false))).keys :=
          NameMap.mem_keys_ofList.2 (by simpa [Function.comp_def] using hmem)
        rw [NameMap.mem_keys_iff, hget] at hkey
        cases hkey
      rw [if_neg habsent]
  | some holds =>
      obtain ⟨other, hmem, heq⟩ := List.mem_map.1 (NameMap.mem_of_get?_ofList hget)
      obtain ⟨rfl, rfl⟩ := Prod.mk.inj heq
      rw [if_pos hmem]

theorem get?_foldl_set (tags : List String) (env : TagEnvironment) (tag : String) :
    (tags.foldl (fun env tag => env.set tag true) env).tags.get? tag
      = if tag ∈ tags then some true else env.tags.get? tag := by
  induction tags generalizing env with
  | nil => rfl
  | cons first tags ih =>
      rw [List.foldl_cons, ih, set, NameMap.get?_insert]
      by_cases hrest : tag ∈ tags
      · simp [hrest]
      · simp [hrest, eq_comm]

/-- A fact holds, whether its tag is declared or not; any other tag does not hold, if it is known. -/
theorem get?_ofFacts (known : List String) (cpuName : String) (cpuTags : List String)
    (toolchain tag : String) :
    (ofFacts known cpuName cpuTags toolchain).tags.get? tag
      = if tag ∈ facts cpuName cpuTags toolchain then some true
        else if tag ∈ known then some false else none := by
  rw [ofFacts, get?_foldl_set, get?_ofKnown]
  rfl

theorem lookup_ofFacts_eq_none_iff :
    (ofFacts known cpuName cpuTags toolchain).lookup tag = none
      ↔ tag ∉ facts cpuName cpuTags toolchain ∧ tag ∉ known := by
  rw [lookup, Option.map_eq_none_iff, get?_ofFacts]
  split
  · next hfact => simp [hfact]
  · next hfact => simp [hfact]

theorem extends_ofFacts (h : known ⊆ known') :
    Expr.Extends (ofFacts known cpuName cpuTags toolchain).lookup
      (ofFacts known' cpuName cpuTags toolchain).lookup := by
  intro tag v hv
  obtain ⟨holds, hholds, rfl⟩ := Option.map_eq_some_iff.1 hv
  refine Option.map_eq_some_iff.2 ⟨holds, ?_, rfl⟩
  rw [get?_ofFacts] at hholds ⊢
  split at hholds
  · next hfact => rw [if_pos hfact, hholds]
  · next hfact =>
    split at hholds
    · next hknown => rw [if_neg hfact, if_pos (h hknown), hholds]
    · cases hholds

/-- Declaring more tags changes no verdict that is decided, and nothing else but the error of a tag that
was not known before. -/
theorem evalSupports_of_subset (h : known ⊆ known') (expression cpuName : String)
    (cpuTags : List String) (toolchain : String) :
    (∀ verdict, evalSupports expression (.ofFacts known cpuName cpuTags toolchain) = .ok verdict →
        evalSupports expression (.ofFacts known' cpuName cpuTags toolchain) = .ok verdict)
      ∧ (evalSupports expression (.ofFacts known cpuName cpuTags toolchain)
            ≠ evalSupports expression (.ofFacts known' cpuName cpuTags toolchain) →
          ∃ tag ∈ known', tag ∉ known
            ∧ evalSupports expression (.ofFacts known cpuName cpuTags toolchain)
              = .error (.supportedExpression expression (.unknownIdentifier tag))) := by
  suffices hor : evalSupports expression (.ofFacts known cpuName cpuTags toolchain)
        = evalSupports expression (.ofFacts known' cpuName cpuTags toolchain)
      ∨ ∃ tag ∈ known', tag ∉ known
        ∧ evalSupports expression (.ofFacts known cpuName cpuTags toolchain)
          = .error (.supportedExpression expression (.unknownIdentifier tag)) by
    refine ⟨fun verdict hverdict => ?_, hor.resolve_left⟩
    rcases hor with hsame | ⟨tag, -, -, herror⟩
    · rw [← hsame, hverdict]
    · rw [hverdict] at herror
      cases herror
  unfold evalSupports
  cases Expr.parse expression.toList with
  | error e => exact .inl rfl
  | ok e =>
      dsimp only
      rcases Expr.lacks_eval (extends_ofFacts h) e with hsame | ⟨tag, hnone, hsome, herror⟩
      · rw [hsame]
        exact .inl rfl
      · rw [herror]
        obtain ⟨hfact, hunknown⟩ := lookup_ofFacts_eq_none_iff.1 hnone
        rw [ne_eq, lookup_ofFacts_eq_none_iff, not_and, not_not] at hsome
        exact .inr ⟨tag, hsome hfact, hunknown, rfl⟩

/-- An expression whose unknown tag is passed over comes to the same once that tag is declared. -/
theorem evalSupports_of_subset_passedOver :
    ["avr", "arm"] ⊆ ["cortex", "arm", "avr", "arm"]
      ∧ evalSupports "(arm and cortex) or avr in (avr, arm)"
        (.ofFacts ["avr", "arm"] "atmega64" ["avr"] "gcc") = .ok true
      ∧ evalSupports "(arm and cortex) or avr in (avr, arm)"
        (.ofFacts ["cortex", "arm", "avr", "arm"] "atmega64" ["avr"] "gcc") = .ok true := by
  have hsubset : ["avr", "arm"] ⊆ ["cortex", "arm", "avr", "arm"] := by decide
  have hdecided : evalSupports "(arm and cortex) or avr in (avr, arm)"
      (.ofFacts ["avr", "arm"] "atmega64" ["avr"] "gcc") = .ok true :=
    Outcome.toOption_eq_some_iff.1 (by decide +kernel)
  exact ⟨hsubset, hdecided, (evalSupports_of_subset hsubset _ _ _ _).1 true hdecided⟩

end TagEnvironment

end Configurator
