import Mathlib.Logic.Relation
import Configurator.Proofs.Catalog.Enabling

/-!
# What unselecting a module does

Unselecting a module of a coherent catalogue disables the modules that list it, directly or through
others (`unselects_withdraw`). The walk goes backwards from dependency to dependent and stops at
modules that are not enabled, so it only finds modules from which a path leads to the one that is gone.
That it misses none is no matter of the walk: the state that it leaves is coherent, and there a path of
listed modules that starts at an enabled one would end at an enabled one.

What is left after several modules were unselected is described by the set of them (`Without`). This
description passes from step to step, and with balanced counts it leaves no room for two states, so the
order in which modules are unselected makes no difference.
-/

namespace Configurator.Catalog

open Relation

variable {c d : Catalog} {name other : String}

/-! ## Listed modules -/

/-- Whether a module has another one among the dependencies that it lists. -/
def HardDep (c : Catalog) (user dep : String) : Prop :=
  ∃ m, c.module? user = some m ∧ dep ∈ m.depends ∧ c.isModule dep = true

theorem hardDep_congr (h : d.declared = c.declared) : d.HardDep = c.HardDep := by
  have hmono : ∀ {c d : Catalog}, d.declared = c.declared →
      ∀ user dep, c.HardDep user dep → d.HardDep user dep := by
    rintro c d h user dep ⟨m, hm, hdep, hmod⟩
    obtain ⟨m', hm', heq⟩ := exists_module? h.symm hm
    exact ⟨m', hm', by rwa [depends_eq heq], by rwa [isModule_congr h]⟩
  funext user dep
  exact propext ⟨hmono h.symm user dep, hmono h user dep⟩

/-- In a coherent catalogue an enabled module has what it lists enabled, to the end of every path. -/
theorem Coherent.isEnabled_of_path (hc : c.Coherent) (hpath : ReflTransGen c.HardDep other name)
    (hon : c.isEnabled other = true) : c.isEnabled name = true := by
  induction hpath with
  | refl => exact hon
  | tail _ hstep ih =>
      obtain ⟨m, hm, hdep, hmod⟩ := hstep
      obtain ⟨m', hm', he⟩ := isEnabled_iff.1 ih
      rw [hm, Option.some.injEq] at hm'
      exact hc.depends _ m hm (hm' ▸ he) _ hdep hmod

/-! ## What the walk takes away -/

theorem get?_contributions_switchOff (c : Catalog) (name other : String) :
    (c.switchOff name).contributions.get? other
      = if other = name then none else c.contributions.get? other := by
  refine (get?_contributions_refreshContribution _ name other).trans ?_
  have hoff := isEnabled_switchOff c name name
  rw [if_pos rfl] at hoff
  have hbare : (c.switchOff name).bareFiles name = [] := by
    rw [bareFiles, hoff]
    rfl
  exact if_congr Iff.rfl (congrArg contribution? hbare) rfl

theorem get?_contributions_cascade (c : Catalog) (todo : List String) (other : String) :
    (c.cascade todo).1.contributions.get? other
      = if other ∈ (c.cascade todo).2 then none else c.contributions.get? other := by
  fun_induction cascade c todo with
  | case1 c => simp
  | case2 c first rest _ c' after names heq ih =>
      rw [heq] at ih
      rw [ih, get?_contributions_switchOff]
      by_cases hmem : other ∈ names
      · simp [hmem]
      · simp [hmem]
  | case3 c first rest _ ih => exact ih

theorem mem_explicit_cascade (c : Catalog) (todo : List String) (other : String) :
    other ∈ (c.cascade todo).1.explicit ↔ other ∈ c.explicit ∧ other ∉ (c.cascade todo).2 := by
  fun_induction cascade c todo with
  | case1 c => simp
  | case2 c first rest _ c' after names heq ih =>
      rw [heq] at ih
      have herase : other ∈ c'.explicit ↔ other ≠ first ∧ other ∈ c.explicit := NameSet.mem_erase
      rw [ih, herase, List.mem_cons]
      tauto
  | case3 c first rest _ ih => exact ih

/-- Withdrawing a module disables it and the names that it reports. -/
theorem isEnabled_withdraw (c : Catalog) (name other : String) :
    (c.withdraw name).2.isEnabled other = true
      ↔ c.isEnabled other = true ∧ other ∉ name :: (c.withdraw name).1.disabled := by
  refine (isEnabled_cascade _ _ other).trans ?_
  rw [isEnabled_switchOff, List.mem_cons, not_or, ← and_assoc]
  refine and_congr_left fun _ => ?_
  by_cases hother : other = name
  · simp [hother]
  · simp [hother]

theorem mem_explicit_withdraw (c : Catalog) (name other : String) :
    other ∈ (c.withdraw name).2.explicit
      ↔ other ∈ c.explicit ∧ other ∉ name :: (c.withdraw name).1.disabled := by
  refine (mem_explicit_cascade _ _ other).trans ?_
  have herase : other ∈ (c.switchOff name).explicit ↔ other ≠ name ∧ other ∈ c.explicit :=
    NameSet.mem_erase
  rw [herase, List.mem_cons, not_or, and_comm (a := other ≠ name), and_assoc]
  rfl

theorem get?_contributions_withdraw (c : Catalog) (name other : String) :
    (c.withdraw name).2.contributions.get? other
      = if other ∈ name :: (c.withdraw name).1.disabled then none
        else c.contributions.get? other := by
  refine (get?_contributions_cascade _ _ other).trans ?_
  rw [get?_contributions_switchOff]
  show (if other ∈ (c.withdraw name).1.disabled then _ else _) = _
  by_cases hmem : other ∈ (c.withdraw name).1.disabled
  · simp [hmem]
  · simp [hmem]

theorem sameGraph_withdraw (c : Catalog) (name : String) : SameGraph (c.withdraw name).2 c :=
  (sameGraph_cascade _ _).trans (sameGraph_switchOff c name)

/-! ## Unselecting one module -/

/-- What unselecting a module does to a catalogue, with the names that it reports. -/
structure Unselects (c : Catalog) (name : String) (removed : List String) (d : Catalog) : Prop where
  enabled : ∀ other, d.isEnabled other = true
    ↔ c.isEnabled other = true ∧ other ≠ name ∧ ¬ TransGen c.HardDep other name
  mem_removed : ∀ other, other ∈ removed
    ↔ c.isEnabled other = true ∧ d.isEnabled other = false ∧ other ≠ name
  nodup : removed.Nodup
  explicit : ∀ other, other ∈ d.explicit ↔ other ∈ c.explicit ∧ other ∉ name :: removed
  contributions : ∀ other, d.contributions.get? other
    = if other ∈ name :: removed then none else c.contributions.get? other
  headers : d.headers = c.headers

/-- The walk only finds modules from which the one that is gone can be reached. -/
theorem transGen_of_mem_withdraw (hbuilt : c.IsBuilt) (hname : c.isModule name = true)
    (h : other ∈ (c.withdraw name).1.disabled) :
    c.isEnabled other = true ∧ other ≠ name ∧ TransGen c.HardDep other name := by
  have hdeclared := declared_switchOff c name
  have hstep : ∀ {user dep}, c.isModule dep = true →
      user ∈ (c.switchOff name).hardDependents dep → c.HardDep user dep := by
    intro user dep hmod huser
    rw [hardDependents_congr hdeclared] at huser
    obtain ⟨m, hm, hdep⟩ := hbuilt.mem_hardDependents.1 huser
    exact ⟨m, hm, hdep, hmod⟩
  have hfound := cascade_mem_induction (P := fun n => TransGen c.HardDep n name)
    (fun user huser => .single (hstep hname huser))
    (fun dep hpath user huser => by
      obtain ⟨-, ⟨m, hm, -, -⟩, -⟩ := TransGen.head'_iff.1 hpath
      exact hpath.head (hstep (isModule_iff.2 ⟨m, hm⟩) huser))
    other h
  have hon := hfound.2
  rw [isEnabled_switchOff] at hon
  split at hon
  · cases hon
  · next hne => exact ⟨hon, hne, hfound.1⟩

theorem unselects_withdraw (hc : c.Coherent) (hbuilt : c.IsBuilt) (hname : c.isModule name = true) :
    c.Unselects name (c.withdraw name).1.disabled (c.withdraw name).2 := by
  have hleft := isEnabled_withdraw c name
  have hpath : ∀ other, (c.withdraw name).2.isEnabled other = true →
      ¬ ReflTransGen c.HardDep other name := by
    intro other hon hpath
    rw [← hardDep_congr (sameGraph_withdraw c name).declared] at hpath
    have hself := (hc.withdraw hbuilt name).isEnabled_of_path hpath hon
    exact ((hleft name).1 hself).2 List.mem_cons_self
  refine ⟨fun other => ?_, fun other => ?_, nodup_cascade _ _, mem_explicit_withdraw c name,
    get?_contributions_withdraw c name, (sameGraph_withdraw c name).headers⟩
  · constructor
    · intro hon
      have hnone := hpath other hon
      rw [reflTransGen_iff_eq_or_transGen, not_or] at hnone
      exact ⟨((hleft other).1 hon).1, Ne.symm hnone.1, hnone.2⟩
    · rintro ⟨hon, hne, hnone⟩
      refine (hleft other).2 ⟨hon, fun hmem => ?_⟩
      rcases List.mem_cons.1 hmem with heq | hmem
      · exact hne heq
      · exact hnone (transGen_of_mem_withdraw hbuilt hname hmem).2.2
  · constructor
    · intro hmem
      obtain ⟨hon, hne, -⟩ := transGen_of_mem_withdraw hbuilt hname hmem
      refine ⟨hon, ?_, hne⟩
      by_contra hafter
      exact ((hleft other).1 (by simpa using hafter)).2 (List.mem_cons_of_mem _ hmem)
    · rintro ⟨hon, hoff, hne⟩
      by_contra hnot
      rw [(hleft other).2 ⟨hon, by simp [hne, hnot]⟩] at hoff
      cases hoff

/-! ## Unselecting several modules -/

/-- Whether a state is what another one is without some modules and all that list them. -/
structure Without (c : Catalog) (names : List String) (d : Catalog) : Prop where
  graph : SameGraph d c
  enabled : ∀ other, d.isEnabled other = true
    ↔ c.isEnabled other = true ∧ ∀ name ∈ names, ¬ ReflTransGen c.HardDep other name
  explicit : ∀ other, other ∈ d.explicit ↔ other ∈ c.explicit ∧ d.isEnabled other = true
  contributions : ∀ other, d.contributions.get? other
    = if d.isEnabled other then c.contributions.get? other else none

theorem Coherent.contributions_eq (hc : c.Coherent) (other : String) :
    c.contributions.get? other = if c.isEnabled other then c.contributions.get? other else none := by
  split
  · rfl
  · next hoff =>
    by_contra hsome
    exact hoff (hc.contributions other (NameMap.mem_keys_iff.2 (Option.isSome_iff_ne_none.2 hsome)))

theorem Coherent.without (hc : c.Coherent) : c.Without [] c where
  graph := .refl c
  enabled other := by simp
  explicit other := ⟨fun hmem => ⟨hmem, hc.explicit other hmem⟩, And.left⟩
  contributions := hc.contributions_eq

theorem Without.trans {names more : List String} {e : Catalog} (h : c.Without names d)
    (h' : d.Without more e) : c.Without (names ++ more) e where
  graph := h'.graph.trans h.graph
  enabled other := by
    rw [h'.enabled other, h.enabled other, hardDep_congr h.graph.declared,
      List.forall_mem_append, and_assoc]
  explicit other := by
    rw [h'.explicit other, h.explicit other]
    constructor
    · rintro ⟨⟨hmem, -⟩, hon⟩
      exact ⟨hmem, hon⟩
    · rintro ⟨hmem, hon⟩
      exact ⟨⟨hmem, ((h'.enabled other).1 hon).1⟩, hon⟩
  contributions other := by
    rw [h'.contributions other, h.contributions other]
    cases hon : e.isEnabled other with
    | false => rfl
    | true => simp [((h'.enabled other).1 hon).1]

/-- Unselecting a name takes away what rests on it. A name that is no module fails, and nothing rests on
it. -/
theorem without_unselect (hc : c.Coherent) (hbuilt : c.IsBuilt) (name : String) :
    c.Without [name] (c.step (.unselect name)) := by
  cases hname : c.isModule name with
  | false =>
      have hstep : c.step (.unselect name) = c :=
        (Update.checksFirst_unselect name).leaves_of_error (unselect_of_not_isModule hname)
      rw [hstep]
      refine { hc.without with enabled := fun other => ?_ }
      rw [List.forall_mem_singleton]
      refine ⟨fun hon => ⟨hon, fun hpath => ?_⟩, And.left⟩
      have hself := hc.isEnabled_of_path hpath hon
      rw [isModule_of_isEnabled hself] at hname
      cases hname
  | true =>
      rw [step_unselect hname]
      have hspec := unselects_withdraw hc hbuilt hname
      have hleft := isEnabled_withdraw c name
      refine ⟨sameGraph_withdraw c name, fun other => ?_, fun other => ?_, fun other => ?_⟩
      · rw [hspec.enabled other, List.forall_mem_singleton, reflTransGen_iff_eq_or_transGen, not_or,
          ne_comm]
      · rw [hspec.explicit other, hleft other]
        exact and_congr_right fun hmem => by simp [hc.explicit other hmem]
      · rw [hspec.contributions other, hc.contributions_eq other]
        by_cases hmem : other ∈ name :: (c.withdraw name).1.disabled
        · rw [if_pos hmem, if_neg fun hon => ((hleft other).1 hon).2 hmem]
        · rw [if_neg hmem]
          cases hon : c.isEnabled other with
          | true => rw [if_pos ((hleft other).2 ⟨hon, hmem⟩)]
          | false => simp

theorem without_run_unselect (hc : c.Coherent) (hbuilt : c.IsBuilt) (names : List String) :
    c.Without names (c.run (names.map .unselect)) := by
  induction names generalizing c with
  | nil => exact hc.without
  | cons name names ih =>
      have hrest := ih (hc.step hbuilt (.unselect name)) (hbuilt.step (.unselect name))
      exact (without_unselect hc hbuilt name).trans hrest

/-- The description leaves no room for two states. -/
theorem Without.unique {names names' : List String} {e : Catalog} (h : c.Without names d)
    (h' : c.Without names' e) (hnames : ∀ name, name ∈ names ↔ name ∈ names') (hd : d.Balanced)
    (he : e.Balanced) : d = e := by
  have henabled : ∀ other, d.isEnabled other = e.isEnabled other := by
    intro other
    rw [Bool.eq_iff_iff, h.enabled other, h'.enabled other]
    simp only [hnames]
  refine eq_of_state (h.graph.trans h'.graph.symm) henabled (NameSet.ext_mem fun other => ?_)
    (NameMap.ext_get? fun other => ?_) hd he
  · rw [h.explicit other, h'.explicit other, henabled other]
  · rw [h.contributions other, h'.contributions other, henabled other]

/-- In every state that a catalogue can get into, unselecting a module succeeds and disables exactly the
module and those from which it can be reached through listed modules, and takes what is recorded for
them away. Unselecting several names comes to the same state in whatever order. -/
theorem unselect_spec (sourceRoot : String) (modules : List Module) (headers : List Header)
    (lists : List ValueList) (ops : List Operation) :
    let c := (build sourceRoot modules headers lists).run ops
    (∀ name, c.isModule name = true → ∃ o d, c.unselect name = .ok (o, d) ∧ o.module = name
        ∧ c.Unselects name o.disabled d)
      ∧ ∀ names names' : List String, (∀ name, name ∈ names ↔ name ∈ names') →
        c.run (names.map .unselect) = c.run (names'.map .unselect) := by
  intro c
  have hbuilt : c.IsBuilt := (isBuilt_build ..).run ops
  have hc : c.Coherent := (coherent_build ..).run (isBuilt_build ..) ops
  have hbalanced : c.Balanced := (balanced_build sourceRoot modules headers lists).run ops
  constructor
  · intro name hname
    exact ⟨_, _, unselect_of_isModule hname, rfl, unselects_withdraw hc hbuilt hname⟩
  · intro names names' hnames
    exact (without_run_unselect hc hbuilt names).unique (without_run_unselect hc hbuilt names') hnames
      (hbalanced.run _) (hbalanced.run _)

/-- All of the ring goes with `clock`, but not `gpio`, which is asked for and unselected separately. -/
theorem unselect_spec_ring :
    let c := (build "" ringModules [] []).run [.select "gpio", .select "usb"]
    (c.isModule "clock" = true ∧ ∃ o d, c.unselect "clock" = .ok (o, d) ∧ o.module = "clock"
        ∧ c.Unselects "clock" o.disabled d)
      ∧ c.run (["clock", "gpio"].map .unselect) = c.run (["gpio", "clock"].map .unselect) := by
  intro c
  have hspec := unselect_spec "" ringModules [] [] [.select "gpio", .select "usb"]
  have hclock : c.isModule "clock" = true := by
    rw [isModule_congr (declared_run _ _)]
    decide +kernel
  refine ⟨⟨hclock, hspec.1 "clock" hclock⟩, hspec.2 _ _ fun name => ?_⟩
  simp [or_comm]

end Configurator.Catalog
