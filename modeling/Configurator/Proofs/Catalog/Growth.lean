import Configurator.Proofs.Catalog.Closure
import Configurator.Proofs.Catalog.Flags

/-!
# Operations that only add

Selecting known modules and setting flags only adds to a state. Where a run of such operations ends
depends on which operations it consists of, and neither on their order nor on how often each is done
(`run_eq_of_mem_iff`).

A single walk does depend on what was done before, because it stops at modules that are enabled. So the
end of a run is described without the walks (`Grown`): which flags are set, and the least set of modules
(`Reached`) that holds the selected ones, what newly set flags require for modules that were enabled at
the beginning, and what its own members depend on in the end. An enabled module whose dependency was
taken away before has no say in it, unless it is selected or one of its flags turns.
-/

namespace Configurator.Catalog

variable {c d e : Catalog} {ops : List Operation}

/-! ## What a run reaches -/

/-- Whether an operation selects a module that there is, or gives a flag a word for true. -/
def Grows (c : Catalog) : Operation → Prop
  | .select name => c.isModule name = true
  | .setParameter configuration name value =>
      ∃ p, c.parameter configuration name = .ok p ∧ p.type = .boolean
        ∧ Parameter.booleanForm? value = some "1"
  | .unselect _ | .release _ | .zeroParameter _ | .syncAutoenabled | .applyUserConfiguration ..
  | .applyTo _ => False

/-- A flag in the header of `user` that requires `dep` is not set in `c` and set in `d`. -/
def Turns (c d : Catalog) (user dep : String) : Prop :=
  ∃ m path name p q, c.module? user = some m ∧ m.configuration = some path
    ∧ c.parameter path name = .ok p ∧ d.parameter path name = .ok q
    ∧ p.isSet = false ∧ q.isSet = true ∧ dep ∈ p.conditionalDeps

/-- The modules that operations between `c` and `d` enable or select. -/
inductive Reached (c d : Catalog) (ops : List Operation) : String → Prop
  | asked {name : String} : .select name ∈ ops → Reached c d ops name
  | required {user dep : String} : c.isEnabled user = true → Turns c d user dep →
      c.isModule dep = true → c.isEnabled dep = false → Reached c d ops dep
  | depended {user dep : String} : Reached c d ops user → dep ∈ d.effectiveDeps user →
      c.isModule dep = true → c.isEnabled dep = false → Reached c d ops dep

/-- The modules whose contributions are refreshed between `c` and `d`. -/
def Renewed (c d : Catalog) (ops : List Operation) (name : String) : Prop :=
  Reached c d ops name ∨ (c.isEnabled name = true ∧ ∃ dep, Turns c d name dep)

/-- Whether `d` is `c` with what some operations add. -/
structure Grown (c : Catalog) (ops : List Operation) (d : Catalog) : Prop where
  declared : d.declared = c.declared
  raised : ∀ path name value p, .setParameter path name value ∈ ops →
    c.parameter path name = .ok p → d.parameter path name = .ok p.raised
  kept : ∀ path name, (∀ value, .setParameter path name value ∉ ops) →
    d.parameter path name = c.parameter path name
  explicit : ∀ name, name ∈ d.explicit ↔ name ∈ c.explicit ∨ .select name ∈ ops
  enabled : ∀ name, d.isEnabled name = true ↔ c.isEnabled name = true ∨ Reached c d ops name
  renewed : ∀ name, Renewed c d ops name → d.Current name
  contributions : ∀ name, ¬ Renewed c d ops name →
    d.contributions.get? name = c.contributions.get? name
  balanced : d.Balanced

theorem Grows.congr {op : Operation} (hdecl : d.declared = c.declared) (h : c.Grows op) :
    d.Grows op := by
  cases op with
  | select name => exact (isModule_congr hdecl name).trans h
  | setParameter configuration name value =>
      obtain ⟨p, hp, htype, hform⟩ := h
      obtain ⟨q, hq, heq⟩ := exists_parameter hdecl.symm hp
      exact ⟨q, hq, (congrArg (·.type) heq).trans htype, hform⟩
  | unselect _ | release _ | zeroParameter _ | syncAutoenabled | applyUserConfiguration _ _
  | applyTo _ => exact h.elim

/-! ## Comparing what is reached -/

theorem parameter_congr (hheaders : d.headers = e.headers) (path name : String) :
    d.parameter path name = e.parameter path name := by
  rw [parameter, parameter, hheaders]

theorem Turns.mono {user dep : String} (h : Turns c d user dep)
    (hset : ∀ path name q, d.parameter path name = .ok q → q.isSet = true →
      ∃ q', e.parameter path name = .ok q' ∧ q'.isSet = true) : Turns c e user dep := by
  obtain ⟨m, path, name, p, q, hm, hpath, hp, hq, hoff, hon, hdep⟩ := h
  obtain ⟨q', hq', hon'⟩ := hset path name q hq hon
  exact ⟨m, path, name, p, q', hm, hpath, hp, hq', hoff, hon', hdep⟩

theorem Turns.of_sameGraph {user dep : String} (h : Turns c d user dep) (hgraph : SameGraph e d) :
    Turns c e user dep :=
  h.mono fun path name q hq hon => ⟨q, (parameter_congr hgraph.headers path name).trans hq, hon⟩

theorem Reached.mono {ops' : List Operation} {name : String} (h : Reached c d ops name)
    (hops : ∀ op ∈ ops, op ∈ ops') (hturns : ∀ user dep, Turns c d user dep → Turns c e user dep)
    (hdeps : ∀ user, ∀ dep ∈ d.effectiveDeps user, dep ∈ e.effectiveDeps user) :
    Reached c e ops' name := by
  induction h with
  | asked hmem => exact .asked (hops _ hmem)
  | required huser hturn hmod hoff => exact .required huser (hturns _ _ hturn) hmod hoff
  | depended _ hdep hmod hoff ih => exact .depended ih (hdeps _ _ hdep) hmod hoff

theorem Reached.of_sameGraph {ops' : List Operation} {name : String} (h : Reached c d ops name)
    (hops : ∀ op ∈ ops, op ∈ ops') (hgraph : SameGraph e d) : Reached c e ops' name :=
  h.mono hops (fun _ _ hturn => hturn.of_sameGraph hgraph) fun user dep hdep => by
    rwa [hgraph.effectiveDeps user]

theorem Renewed.of_sameGraph {ops' : List Operation} {name : String} (h : Renewed c d ops name)
    (hops : ∀ op ∈ ops, op ∈ ops') (hgraph : SameGraph e d) : Renewed c e ops' name := by
  rcases h with h | ⟨hon, dep, hturn⟩
  · exact .inl (h.of_sameGraph hops hgraph)
  · exact .inr ⟨hon, dep, hturn.of_sameGraph hgraph⟩

/-! ## A walk reaches what is left -/

/-- A walk that starts with everything reached (`base`) but for its list reaches the rest. -/
theorem reached_iff_of_pull {base : String → Prop} {todo : List String}
    (hdecl : d.declared = c.declared)
    (henabled : ∀ name, d.isEnabled name = true ↔ c.isEnabled name = true ∨ base name)
    (hbase : ∀ name, base name → Reached c d ops name)
    (htodo : ∀ name ∈ todo, c.isModule name = true → c.isEnabled name = false →
      Reached c d ops name)
    (hasked : ∀ name, .select name ∈ ops → base name)
    (hrequired : ∀ user dep, c.isEnabled user = true → Turns c d user dep → c.isModule dep = true →
      c.isEnabled dep = false → base dep ∨ dep ∈ todo)
    (hdepended : ∀ user dep, base user → dep ∈ d.effectiveDeps user → c.isModule dep = true →
      c.isEnabled dep = false → base dep ∨ dep ∈ todo)
    (name : String) : Reached c d ops name ↔ base name ∨ name ∈ (d.pull todo).2 := by
  have hlisted : ∀ {dep}, c.isModule dep = true → c.isEnabled dep = false →
      (dep ∈ todo ∨ ∃ user ∈ (d.pull todo).2, dep ∈ d.effectiveDeps user) →
      base dep ∨ dep ∈ (d.pull todo).2 := by
    intro dep hmod hoff h
    have hon := isEnabled_pull_of_mem ((isModule_congr hdecl dep).trans hmod) h
    rcases (isEnabled_pull d todo dep).1 hon with hon | hpulled
    · refine .inl (((henabled dep).1 hon).resolve_left fun hbefore => ?_)
      rw [hoff] at hbefore
      cases hbefore
    · exact .inr hpulled
  constructor
  · intro h
    induction h with
    | asked hmem => exact .inl (hasked _ hmem)
    | required huser hturn hmod hoff =>
        rcases hrequired _ _ huser hturn hmod hoff with hdep | hdep
        · exact .inl hdep
        · exact hlisted hmod hoff (.inl hdep)
    | @depended user dep _ hdep hmod hoff ih =>
        rcases ih with huser | huser
        · rcases hdepended user dep huser hdep hmod hoff with hdep | hdep
          · exact .inl hdep
          · exact hlisted hmod hoff (.inl hdep)
        · exact hlisted hmod hoff (.inr ⟨user, huser, hdep⟩)
  · rintro (h | h)
    · exact hbase name h
    · have hbefore : ∀ {other}, d.isEnabled other = false → c.isEnabled other = false := by
        intro other hoff
        by_contra hon
        rw [(henabled other).2 (.inl (by simpa using hon))] at hoff
        cases hoff
      obtain ⟨hreach, hmod, hoff⟩ := pull_mem_induction
        (P := fun n => c.isModule n = true → c.isEnabled n = false → Reached c d ops n) htodo
        (fun user hP husermod huseroff dep hdep hmod hoff =>
          .depended (hP ((isModule_congr hdecl user).symm.trans husermod) (hbefore huseroff))
            hdep hmod hoff) name h
      exact hreach ((isModule_congr hdecl name).symm.trans hmod) (hbefore hoff)

/-- What such a walk ends in, if it starts with everything but what the walk does itself. -/
theorem grown_of_pull {base : String → Prop} {todo : List String}
    (hdecl : d.declared = c.declared)
    (hraised : ∀ path name value p, .setParameter path name value ∈ ops →
      c.parameter path name = .ok p → d.parameter path name = .ok p.raised)
    (hkept : ∀ path name, (∀ value, .setParameter path name value ∉ ops) →
      d.parameter path name = c.parameter path name)
    (hexplicit : ∀ name, name ∈ d.explicit ↔ name ∈ c.explicit ∨ .select name ∈ ops)
    (henabled : ∀ name, d.isEnabled name = true ↔ c.isEnabled name = true ∨ base name)
    (hreached : ∀ name, Reached c d ops name ↔ base name ∨ name ∈ (d.pull todo).2)
    (hrenewed : ∀ name, name ∉ (d.pull todo).2 → Renewed c d ops name → d.Current name)
    (hcontributions : ∀ name, ¬ Renewed c d ops name →
      d.contributions.get? name = c.contributions.get? name)
    (hbalanced : d.Balanced) : Grown c ops (d.pull todo).1 := by
  have hgraph := sameGraph_pull d todo
  have hparameter := parameter_congr hgraph.headers
  have hback : ∀ {name}, Renewed c (d.pull todo).1 ops name → Renewed c d ops name :=
    fun h => h.of_sameGraph (fun _ ho => ho) hgraph.symm
  refine ⟨hgraph.declared.trans hdecl, ?_, ?_, ?_, ?_, ?_, ?_, ?_⟩
  · intro path name value p hmem hp
    exact (hparameter path name).trans (hraised path name value p hmem hp)
  · intro path name hnot
    exact (hparameter path name).trans (hkept path name hnot)
  · intro name
    rw [explicit_pull]
    exact hexplicit name
  · intro name
    rw [isEnabled_pull, henabled name, or_assoc, ← hreached name]
    exact or_congr_right ⟨fun h => h.of_sameGraph (fun _ ho => ho) hgraph,
      fun h => h.of_sameGraph (fun _ ho => ho) hgraph.symm⟩
  · intro name h
    by_cases hpulled : name ∈ (d.pull todo).2
    · exact current_pull_of_mem hpulled
    · exact pull_induction (P := fun d => d.Current name) (fun _ _ hd => hd.switchOn) todo
        (hrenewed name hpulled (hback h))
  · intro name h
    have hnot : ¬ Renewed c d ops name := fun hd => h (hd.of_sameGraph (fun _ ho => ho) hgraph)
    have hpulled : name ∉ (d.pull todo).2 := fun hmem => hnot (.inl ((hreached name).2 (.inr hmem)))
    rw [get?_contributions_pull_of_not_mem hpulled]
    exact hcontributions name hnot
  · exact pull_induction (fun _ name hd => hd.switchOn name) todo hbalanced

/-! ## Selecting -/

theorem Grown.refl (hc : c.Balanced) : Grown c [] c := by
  have hturns : ∀ user dep, ¬ Turns c c user dep := by
    rintro user dep ⟨m, path, name, p, q, -, -, hp, hq, hoff, hon, -⟩
    rw [hp, Except.ok.injEq] at hq
    rw [hq, hon] at hoff
    cases hoff
  have hreached : ∀ name, ¬ Reached c c [] name := by
    intro name h
    induction h with
    | asked hmem => simp at hmem
    | required _ hturn _ _ => exact hturns _ _ hturn
    | depended _ _ _ _ ih => exact ih
  refine ⟨rfl, by simp, fun _ _ _ => rfl, by simp, ?_, ?_, fun _ _ => rfl, hc⟩
  · intro name
    simp [hreached name]
  · rintro name (h | ⟨-, dep, hturn⟩)
    · exact absurd h (hreached name)
    · exact absurd hturn (hturns name dep)

theorem Grown.isEnabled_switchOn (h : Grown c ops d) {name : String} (hname : d.isModule name = true)
    (other : String) :
    ((d.askFor name).switchOn name).isEnabled other = true
      ↔ c.isEnabled other = true ∨ (Reached c d ops other ∨ other = name) := by
  rw [Catalog.isEnabled_switchOn, ← or_assoc, ← h.enabled other]
  split
  · next heq =>
    subst heq
    exact ⟨fun _ => .inr rfl, fun _ => hname⟩
  · next hne => exact (or_iff_left hne).symm

theorem mem_append_select {name other : String} :
    .select other ∈ ops ++ [.select name] ↔ .select other ∈ ops ∨ other = name := by
  simp

theorem Grown.reached_select (h : Grown c ops d) {name : String} (hname : d.isModule name = true)
    (other : String) :
    Reached c ((d.askFor name).switchOn name) (ops ++ [.select name]) other
      ↔ (Reached c d ops other ∨ other = name) ∨ other ∈ (d.enable name).2 := by
  have hgraph := sameGraph_switchOn_askFor d name
  have hself : Reached c ((d.askFor name).switchOn name) (ops ++ [.select name]) name :=
    .asked (mem_append_select.2 (.inr rfl))
  have hbase : ∀ other, Reached c d ops other ∨ other = name →
      Reached c ((d.askFor name).switchOn name) (ops ++ [.select name]) other := by
    rintro other (hother | rfl)
    · exact hother.of_sameGraph (fun op => List.mem_append_left _) hgraph
    · exact hself
  refine reached_iff_of_pull (hgraph.declared.trans h.declared) (h.isEnabled_switchOn hname) hbase
    ?_ ?_ ?_ ?_ other
  · intro dep hdep hmod hoff
    exact .depended hself hdep hmod hoff
  · intro other hmem
    exact (mem_append_select.1 hmem).imp_left .asked
  · intro user dep huser hturn hmod hoff
    exact .inl (.inl (.required huser (hturn.of_sameGraph hgraph.symm) hmod hoff))
  · rintro user dep (huser | rfl) hdep hmod hoff
    · rw [hgraph.effectiveDeps user] at hdep
      exact .inl (.inl (.depended huser hdep hmod hoff))
    · exact .inr hdep

/-- Selecting one more module. -/
theorem Grown.select (h : Grown c ops d) {name : String} (hname : d.isModule name = true) :
    Grown c (ops ++ [.select name]) (d.enable name).1 := by
  have hgraph := sameGraph_switchOn_askFor d name
  have hsub : ∀ op ∈ ops, op ∈ ops ++ [.select name] := fun op => List.mem_append_left _
  have hkeeps : ∀ {other}, d.Current other → ((d.askFor name).switchOn name).Current other :=
    fun hother => (hother.congr (d := d.askFor name) rfl rfl).switchOn
  refine grown_of_pull (hgraph.declared.trans h.declared) ?_ ?_ ?_ (h.isEnabled_switchOn hname)
    (h.reached_select hname) ?_ ?_ ((h.balanced.congr (d := d.askFor name) rfl rfl).switchOn name)
  · intro path other value p hmem hp
    exact (parameter_congr hgraph.headers path other).trans
      (h.raised path other value p (by simpa using hmem) hp)
  · intro path other hnot
    refine (parameter_congr hgraph.headers path other).trans (h.kept path other fun value hmem => ?_)
    exact hnot value (hsub _ hmem)
  · intro other
    show other ∈ d.explicit.insert name ↔ _
    rw [NameSet.mem_insert, h.explicit other, mem_append_select]
    tauto
  · intro other hpulled hrenewed
    rcases hrenewed with hreached | ⟨hon, dep, hturn⟩
    · rcases (h.reached_select hname other).1 hreached with (hother | rfl) | hmem
      · exact hkeeps (h.renewed other (.inl hother))
      · exact current_refreshContribution.2 (.inl rfl)
      · exact absurd hmem hpulled
    · exact hkeeps (h.renewed other (.inr ⟨hon, dep, hturn.of_sameGraph hgraph.symm⟩))
  · intro other hnot
    have hne : other ≠ name := fun heq =>
      hnot (.inl ((h.reached_select hname other).2 (.inl (.inr heq))))
    have hbefore : ¬ Renewed c d ops other := fun hd => hnot (hd.of_sameGraph hsub hgraph)
    rw [← h.contributions other hbefore]
    exact (get?_contributions_refreshContribution _ name other).trans (if_neg hne)

/-! ## Raising a flag -/

section

variable {configuration name value : String} {flag : Parameter}

/-- A flag that is not set now has not been given a value, and was not set at the beginning. -/
theorem Grown.parameter_of_not_set (h : Grown c ops d)
    (hflag : d.parameter configuration name = .ok flag) (htype : flag.type = .boolean)
    (hunset : flag.isSet = false) : c.parameter configuration name = .ok flag := by
  by_cases hgiven : ∃ value, .setParameter configuration name value ∈ ops
  · obtain ⟨value, hmem⟩ := hgiven
    obtain ⟨p, hp, hdecl⟩ := exists_parameter h.declared hflag
    have hraised := h.raised configuration name value p hmem hp
    rw [hflag, Except.ok.injEq] at hraised
    have hptype : p.type = .boolean := (congrArg (·.type) hdecl).trans htype
    rw [hraised, Parameter.isSet_raised hptype] at hunset
    cases hunset
  · rw [← h.kept configuration name (not_exists.1 hgiven)]
    exact hflag

theorem Grown.turns_raise (h : Grown c ops d) (hflag : d.parameter configuration name = .ok flag)
    (htype : flag.type = .boolean) {user dep : String} :
    Turns c (d.raise configuration name flag) user dep
      ↔ Turns c d user dep ∨ (flag.isSet = false ∧ dep ∈ flag.conditionalDeps
          ∧ ∃ m, c.module? user = some m ∧ m.configuration = some configuration) := by
  have hself : (d.raise configuration name flag).parameter configuration name = .ok flag.raised :=
    parameter_withParameter_self hflag rfl
  have hother : ∀ {path other}, (configuration, name) ≠ (path, other) →
      (d.raise configuration name flag).parameter path other = d.parameter path other :=
    parameter_withParameter_of_ne
  constructor
  · rintro ⟨m, path, other, p, q, hm, hpath, hp, hq, hoff, hon, hdep⟩
    by_cases hsame : (configuration, name) = (path, other)
    · cases hsame
      cases hset : flag.isSet with
      | true => exact .inl ⟨m, _, _, p, flag, hm, hpath, hp, hflag, hoff, hset, hdep⟩
      | false =>
          have hbefore := h.parameter_of_not_set hflag htype hset
          rw [hp, Except.ok.injEq] at hbefore
          exact .inr ⟨rfl, hbefore ▸ hdep, m, hm, hpath⟩
    · rw [hother hsame] at hq
      exact .inl ⟨m, path, other, p, q, hm, hpath, hp, hq, hoff, hon, hdep⟩
  · rintro (hturn | ⟨hunset, hdep, m, hm, hpath⟩)
    · refine hturn.mono fun path other q hq hon => ?_
      by_cases hsame : (configuration, name) = (path, other)
      · cases hsame
        exact ⟨_, hself, Parameter.isSet_raised htype⟩
      · exact ⟨q, (hother hsame).trans hq, hon⟩
    · exact ⟨m, _, _, flag, _, hm, hpath, h.parameter_of_not_set hflag htype hunset, hself, hunset,
        Parameter.isSet_raised htype, hdep⟩

/-- What depends on more, in terms of the modules at the beginning. -/
theorem Grown.mem_turned (h : Grown c ops d) (hbuilt : d.IsBuilt) {user : String} :
    user ∈ d.turned configuration flag
      ↔ flag.isSet = false ∧ flag.conditionalDeps ≠ []
        ∧ (c.isEnabled user = true ∨ Reached c d ops user)
        ∧ ∃ m, c.module? user = some m ∧ m.configuration = some configuration := by
  rw [Catalog.mem_turned hbuilt, ← h.enabled user]
  refine and_congr_right fun _ => and_congr_right fun _ => ?_
  constructor
  · rintro ⟨m, hm, hon, hpath⟩
    obtain ⟨m', hm', heq⟩ := exists_module? h.declared hm
    exact ⟨isEnabled_iff.2 ⟨m, hm, hon⟩, m', hm', (configuration_eq heq).trans hpath⟩
  · rintro ⟨hon, m, hm, hpath⟩
    obtain ⟨m', hm', hon'⟩ := isEnabled_iff.1 hon
    obtain ⟨m'', hm'', heq⟩ := exists_module? h.declared.symm hm
    rw [hm', Option.some.injEq] at hm''
    subst hm''
    exact ⟨m', hm', hon', (configuration_eq heq).trans hpath⟩

/-- What follows from the raised flag for a module at the end, it followed before, or it is demanded
now. -/
theorem Grown.mem_effectiveDeps_raise (h : Grown c ops d) (hbuilt : d.IsBuilt)
    (hflag : d.parameter configuration name = .ok flag) (htype : flag.type = .boolean)
    {user dep : String} (hon : c.isEnabled user = true ∨ Reached c d ops user)
    (hdep : dep ∈ (d.raise configuration name flag).effectiveDeps user) :
    dep ∈ d.effectiveDeps user ∨ dep ∈ d.demanded configuration flag := by
  rcases (Catalog.mem_effectiveDeps_raise hflag htype).1 hdep with hbefore | ⟨⟨m, hm, hpath⟩, hdep⟩
  · exact .inl hbefore
  · cases hset : flag.isSet with
    | true =>
        exact .inl (mem_effectiveDeps_iff.2 ⟨m, hm, .inr ⟨_, _, flag, hpath, hflag, hset, hdep⟩⟩)
    | false =>
        obtain ⟨m', hm', heq⟩ := exists_module? h.declared hm
        refine .inr (mem_demanded.2 ⟨hdep, user, (h.mem_turned hbuilt).2 ?_⟩)
        exact ⟨hset, List.ne_nil_of_mem hdep, hon, m', hm', (configuration_eq heq).trans hpath⟩

/-- The walk that follows a raised flag, in a state `e` that has the flag, reaches what is left. -/
theorem Grown.reached_raise (h : Grown c ops d) (hbuilt : d.IsBuilt)
    (hflag : d.parameter configuration name = .ok flag) (htype : flag.type = .boolean)
    (hgraph : SameGraph e (d.raise configuration name flag))
    (henabled : ∀ other, e.isEnabled other = d.isEnabled other) (other : String) :
    Reached c e (ops ++ [.setParameter configuration name value]) other
      ↔ Reached c d ops other ∨ other ∈ (e.pull (d.demanded configuration flag)).2 := by
  have hturns : ∀ {user dep}, Turns c d user dep → Turns c e user dep := fun hturn =>
    ((h.turns_raise hflag htype).2 (.inl hturn)).of_sameGraph hgraph
  have hdeps : ∀ {user dep}, dep ∈ d.effectiveDeps user → dep ∈ e.effectiveDeps user := by
    intro user dep hdep
    rw [hgraph.effectiveDeps user]
    exact (Catalog.mem_effectiveDeps_raise hflag htype).2 (.inl hdep)
  have hbase : ∀ other, Reached c d ops other →
      Reached c e (ops ++ [.setParameter configuration name value]) other :=
    fun other hother => hother.mono (fun op => List.mem_append_left _) (fun _ _ => hturns)
      fun _ _ => hdeps
  refine reached_iff_of_pull ((hgraph.declared.trans (declared_raise hflag)).trans h.declared)
    (fun n => (henabled n ▸ h.enabled n)) hbase ?_ ?_ ?_ ?_ other
  · intro dep hdemanded hmod hoff
    obtain ⟨hdep, user, huser⟩ := mem_demanded.1 hdemanded
    obtain ⟨hunset, -, hon, m, hm, hpath⟩ := (h.mem_turned hbuilt).1 huser
    rcases hon with hon | hreached
    · have hturn := (h.turns_raise hflag htype).2 (.inr ⟨hunset, hdep, m, hm, hpath⟩)
      exact .required hon (hturn.of_sameGraph hgraph) hmod hoff
    · obtain ⟨m', hm', heq⟩ := exists_module? h.declared.symm hm
      refine .depended (hbase user hreached) ?_ hmod hoff
      rw [hgraph.effectiveDeps user]
      refine (Catalog.mem_effectiveDeps_raise hflag htype).2 (.inr ⟨⟨m', hm', ?_⟩, hdep⟩)
      exact (configuration_eq heq).trans hpath
  · intro n hmem
    exact .asked (by simpa using hmem)
  · intro user dep hon hturn hmod hoff
    rcases (h.turns_raise hflag htype).1 (hturn.of_sameGraph hgraph.symm) with
      hturn | ⟨hunset, hdep, hbound⟩
    · exact .inl (.required hon hturn hmod hoff)
    · refine .inr (mem_demanded.2 ⟨hdep, user, (h.mem_turned hbuilt).2 ?_⟩)
      exact ⟨hunset, List.ne_nil_of_mem hdep, .inl hon, hbound⟩
  · intro user dep hreached hdep hmod hoff
    rw [hgraph.effectiveDeps user] at hdep
    refine (h.mem_effectiveDeps_raise hbuilt hflag htype (.inr hreached) hdep).imp_left fun hdep => ?_
    exact .depended hreached hdep hmod hoff

theorem Grown.raised_raise (h : Grown c ops d) (hflag : d.parameter configuration name = .ok flag)
    {path other given : String} {p : Parameter}
    (hmem : .setParameter path other given ∈ ops ++ [.setParameter configuration name value])
    (hp : c.parameter path other = .ok p) :
    (d.raise configuration name flag).parameter path other = .ok p.raised := by
  by_cases hsame : (configuration, name) = (path, other)
  · cases hsame
    have hself : (d.raise configuration name flag).parameter configuration name = .ok flag.raised :=
      parameter_withParameter_self hflag rfl
    rw [hself]
    by_cases hgiven : ∃ value, .setParameter configuration name value ∈ ops
    · obtain ⟨before, hbefore⟩ := hgiven
      have hraised := h.raised _ _ before p hbefore hp
      rw [hflag, Except.ok.injEq] at hraised
      rw [hraised]
      rfl
    · have hkept := h.kept _ _ (not_exists.1 hgiven)
      rw [hflag, hp, Except.ok.injEq] at hkept
      rw [hkept]
  · rw [raise, parameter_withParameter_of_ne hsame]
    refine h.raised path other given p ?_ hp
    rcases List.mem_append.1 hmem with hmem | hmem
    · exact hmem
    · cases List.mem_singleton.1 hmem
      exact absurd rfl hsame

theorem Grown.kept_raise (h : Grown c ops d) {path other : String}
    (hnot : ∀ given,
      .setParameter path other given ∉ ops ++ [.setParameter configuration name value]) :
    (d.raise configuration name flag).parameter path other = c.parameter path other := by
  have hne : (configuration, name) ≠ (path, other) := by
    rintro ⟨⟩
    exact hnot value (List.mem_append_right _ (List.mem_singleton_self _))
  rw [raise, parameter_withParameter_of_ne hne]
  exact h.kept path other fun given hmem => hnot given (List.mem_append_left _ hmem)

/-- Giving one more flag a word for true. -/
theorem Grown.setParameter (h : Grown c ops d) (hbuilt : d.IsBuilt)
    (hflag : d.parameter configuration name = .ok flag) (htype : flag.type = .boolean)
    (hform : Parameter.booleanForm? value = some "1") :
    Grown c (ops ++ [.setParameter configuration name value])
      (d.step (.setParameter configuration name value)) := by
  rw [step_setParameter_of_true hflag htype hform]
  have hgraph : SameGraph ((d.raise configuration name flag).refreshAll
      (d.turned configuration flag)) (d.raise configuration name flag) := sameGraph_refreshAll _ _
  generalize hstart : (d.raise configuration name flag).refreshAll (d.turned configuration flag)
    = start at hgraph
  have henabled : ∀ other, start.isEnabled other = d.isEnabled other := fun other =>
    hstart ▸ isEnabled_refreshAll _ _ other
  have hreached : ∀ other, Reached c start (ops ++ [.setParameter configuration name value]) other
      ↔ Reached c d ops other ∨ other ∈ (start.pull (d.demanded configuration flag)).2 :=
    h.reached_raise hbuilt hflag htype hgraph henabled
  have hcurrent : ∀ {other}, d.Current other → start.Current other := fun hother =>
    hstart ▸ current_refreshAll_raise hbuilt hflag hother
  refine grown_of_pull ((hgraph.declared.trans (declared_raise hflag)).trans h.declared) ?_ ?_ ?_
    (fun n => (henabled n ▸ h.enabled n)) hreached ?_ ?_
    (hstart ▸ (h.balanced.congr (d := d.raise configuration name flag) rfl rfl).refreshAll _)
  · intro path other given p hmem hp
    exact (parameter_congr hgraph.headers path other).trans (h.raised_raise hflag hmem hp)
  · intro path other hnot
    exact (parameter_congr hgraph.headers path other).trans (h.kept_raise hnot)
  · intro other
    have hexplicit : start.explicit = d.explicit := hstart ▸ explicit_refreshAll _ _
    rw [hexplicit, h.explicit other]
    simp
  · -- the walk aside, a module is renewed as before, or because this flag turns for it
    intro other hpulled hrenewed
    rcases hrenewed with hafter | ⟨hon, dep, hturn⟩
    · exact hcurrent (h.renewed other (.inl (((hreached other).1 hafter).resolve_right hpulled)))
    · rcases (h.turns_raise hflag htype).1 (hturn.of_sameGraph hgraph.symm) with
        hturn | ⟨hunset, hdep, hbound⟩
      · exact hcurrent (h.renewed other (.inr ⟨hon, dep, hturn⟩))
      · have hturned : other ∈ d.turned configuration flag :=
          (h.mem_turned hbuilt).2 ⟨hunset, List.ne_nil_of_mem hdep, .inl hon, hbound⟩
        exact hstart ▸ current_refreshAll.2 (.inl hturned)
  · -- what is refreshed was reached before, or the flag turns for it
    intro other hnot
    have hlater : ∀ dep, Turns c (d.raise configuration name flag) other dep →
        ¬ c.isEnabled other = true :=
      fun dep hturn hon => hnot (.inr ⟨hon, dep, hturn.of_sameGraph hgraph⟩)
    have hturned : other ∉ d.turned configuration flag := by
      intro hmem
      obtain ⟨hunset, hdeps, hon | hbefore, hbound⟩ := (h.mem_turned hbuilt).1 hmem
      · obtain ⟨dep, hdep⟩ := List.exists_mem_of_ne_nil _ hdeps
        exact hlater dep ((h.turns_raise hflag htype).2 (.inr ⟨hunset, hdep, hbound⟩)) hon
      · exact hnot (.inl ((hreached other).2 (.inl hbefore)))
    rw [← hstart, get?_contributions_refreshAll_of_not_mem hturned]
    refine h.contributions other ?_
    rintro (hbefore | ⟨hon, dep, hturn⟩)
    · exact hnot (.inl ((hreached other).2 (.inl hbefore)))
    · exact hlater dep ((h.turns_raise hflag htype).2 (.inl hturn)) hon

end

/-! ## Runs -/

theorem Grown.step (h : Grown c ops d) (hbuilt : d.IsBuilt) {op : Operation} (hop : d.Grows op) :
    Grown c (ops ++ [op]) (d.step op) := by
  cases op with
  | select name =>
      have hname : d.isModule name = true := hop
      rw [step_select hname]
      exact h.select hname
  | setParameter configuration name value =>
      obtain ⟨flag, hflag, htype, hform⟩ := hop
      exact h.setParameter hbuilt hflag htype hform
  | unselect _ | release _ | zeroParameter _ | syncAutoenabled | applyUserConfiguration _ _
  | applyTo _ => exact hop.elim

theorem grown_run (hbuilt : c.IsBuilt) (hc : c.Balanced) (hops : ∀ op ∈ ops, c.Grows op) :
    Grown c ops (c.run ops) := by
  induction ops using List.reverseRecOn with
  | nil => exact .refl hc
  | append_singleton ops op ih =>
      have hbefore := ih fun other hother => hops other (List.mem_append_left _ hother)
      have hop := hops op (List.mem_append_right _ (List.mem_singleton_self op))
      have hrun : c.run (ops ++ [op]) = (c.run ops).step op := List.foldl_concat ..
      rw [hrun]
      exact hbefore.step (hbuilt.run ops) (hop.congr hbefore.declared)

/-- There is one state that operations add up to, whatever their order. -/
theorem Grown.unique {ops' : List Operation} (h : Grown c ops d) (h' : Grown c ops' e)
    (hsame : ∀ op, op ∈ ops ↔ op ∈ ops') : d = e := by
  have hdecl : d.declared = e.declared := h.declared.trans h'.declared.symm
  have hheaders : d.headers = e.headers := by
    refine headers_eq_of_parameter hdecl fun path name p q hp hq => ?_
    by_cases hgiven : ∃ value, .setParameter path name value ∈ ops
    · obtain ⟨value, hmem⟩ := hgiven
      obtain ⟨r, hr, -⟩ := exists_parameter h.declared hp
      rw [h.raised path name value r hmem hr, Except.ok.injEq] at hp
      rw [h'.raised path name value r ((hsame _).1 hmem) hr, Except.ok.injEq] at hq
      exact hp.symm.trans hq
    · have hkept := h.kept path name (not_exists.1 hgiven)
      have hkept' := h'.kept path name fun value hmem => hgiven ⟨value, (hsame _).2 hmem⟩
      rw [hp] at hkept
      rw [hq, ← hkept, Except.ok.injEq] at hkept'
      exact hkept'.symm
  have hgraph : SameGraph d e := ⟨hdecl, hheaders⟩
  have hsub : ∀ op ∈ ops, op ∈ ops' := fun op => (hsame op).1
  have hsub' : ∀ op ∈ ops', op ∈ ops := fun op => (hsame op).2
  have henabled : ∀ name, d.isEnabled name = e.isEnabled name := by
    intro name
    rw [Bool.eq_iff_iff, h.enabled name, h'.enabled name]
    exact or_congr_right ⟨fun hr => hr.of_sameGraph hsub hgraph.symm,
      fun hr => hr.of_sameGraph hsub' hgraph⟩
  have hfiles : ∀ name, d.bareFiles name = e.bareFiles name := fun name =>
    bareFiles_congr hgraph.isModule (henabled name) fun _ => hgraph.effectiveDeps name
  refine eq_of_state hgraph henabled ?_ ?_ h.balanced h'.balanced
  · refine NameSet.ext_mem fun name => ?_
    rw [h.explicit name, h'.explicit name, hsame]
  · refine NameMap.ext_get? fun name => ?_
    by_cases hrenewed : Renewed c d ops name
    · have hcurrent := h.renewed name hrenewed
      have hcurrent' := h'.renewed name (hrenewed.of_sameGraph hsub hgraph.symm)
      rw [hcurrent, hcurrent', hfiles name]
    · have hrenewed' : ¬ Renewed c e ops' name :=
        fun hr => hrenewed (hr.of_sameGraph hsub' hgraph)
      rw [h.contributions name hrenewed, h'.contributions name hrenewed']

/-- From whatever state a catalogue has come to, selecting known modules and giving flags words for
true ends in the same state in every order, however often each of these operations is done. -/
theorem run_eq_of_mem_iff (sourceRoot : String) (modules : List Module) (headers : List Header)
    (lists : List ValueList) (before ops ops' : List Operation)
    (hgrows : ∀ op ∈ ops, ((build sourceRoot modules headers lists).run before).Grows op)
    (hsame : ∀ op, op ∈ ops' ↔ op ∈ ops) :
    ((build sourceRoot modules headers lists).run before).run ops'
      = ((build sourceRoot modules headers lists).run before).run ops := by
  have hbuilt := (isBuilt_build sourceRoot modules headers lists).run before
  have hbalanced := (balanced_build sourceRoot modules headers lists).run before
  have hgrows' : ∀ op ∈ ops', ((build sourceRoot modules headers lists).run before).Grows op :=
    fun op hop => hgrows op ((hsame op).1 hop)
  exact (grown_run hbuilt hbalanced hgrows').unique (grown_run hbuilt hbalanced hgrows) hsame

/-- The flag was set, and `irq`, which it requires of `uart`, was taken away again. Then the flag is
set once more and `spi`, which is bound to the same header, selected: before the flag, or twice behind
it. -/
theorem run_eq_of_mem_iff_busModules :
    (∀ op ∈ [.select "spi", Operation.setParameter "cfg_bus.h" "CONFIG_FAST" "yes"],
        ((build "" busModules [busHeader] []).run
          [.setParameter "cfg_bus.h" "CONFIG_FAST" "on", .select "uart", .unselect "irq"]).Grows op)
      ∧ (∀ op, op ∈ [.setParameter "cfg_bus.h" "CONFIG_FAST" "yes", .select "spi", .select "spi"]
          ↔ op ∈ [.select "spi", Operation.setParameter "cfg_bus.h" "CONFIG_FAST" "yes"])
      ∧ ((build "" busModules [busHeader] []).run
          [.setParameter "cfg_bus.h" "CONFIG_FAST" "on", .select "uart", .unselect "irq"]).run
            [.setParameter "cfg_bus.h" "CONFIG_FAST" "yes", .select "spi", .select "spi"]
        = ((build "" busModules [busHeader] []).run
          [.setParameter "cfg_bus.h" "CONFIG_FAST" "on", .select "uart", .unselect "irq"]).run
            [.select "spi", .setParameter "cfg_bus.h" "CONFIG_FAST" "yes"] := by
  have hgrows : ∀ op ∈ [.select "spi", Operation.setParameter "cfg_bus.h" "CONFIG_FAST" "yes"],
      ((build "" busModules [busHeader] []).run
        [.setParameter "cfg_bus.h" "CONFIG_FAST" "on", .select "uart", .unselect "irq"]).Grows op := by
    intro op hop
    refine Grows.congr (declared_run _ _) ?_
    rcases List.mem_pair.1 hop with rfl | rfl
    · show (build "" busModules [busHeader] []).isModule "spi" = true
      decide +kernel
    · refine ⟨flagOn "CONFIG_FAST" ["fast.c", "irq"], parameter_eq_ok_iff.2 ⟨busHeader, ?_, ?_⟩, rfl, ?_⟩
      · decide +kernel
      · decide +kernel
      · decide +kernel
  have hsame : ∀ op,
      op ∈ [.setParameter "cfg_bus.h" "CONFIG_FAST" "yes", .select "spi", .select "spi"]
        ↔ op ∈ [.select "spi", Operation.setParameter "cfg_bus.h" "CONFIG_FAST" "yes"] := by
    intro op
    simp only [List.mem_cons, List.not_mem_nil, or_false]
    tauto
  exact ⟨hgrows, hsame, run_eq_of_mem_iff "" busModules [busHeader] [] _ _ _ hgrows hsame⟩

end Configurator.Catalog
