import Mathlib
import Configurator.Proofs.Catalog.Orphans
import Configurator.Proofs.Catalog.References

/-!
# Undoing a selection

Selecting a module pulls others in. Unselecting it again leaves them enabled and reports them as
orphans, and releasing the orphans gives back the state from before (`release_unselect_select`). That
holds of states in which everything is enabled for a reason (`Consistent`).

The orphans are the modules that were pulled in, and no others. None is missing, by induction from users
to dependencies: where all users of a pulled module are found, it is idle and a candidate. And none is
found that was enabled before, by induction over the search: the first one found would still have its
reason.
-/

namespace Configurator.Catalog

variable {c d : Catalog}

/-- Whether all that is enabled is enabled for a reason, with all that it needs, and the counts and
contributions are those of what is enabled. -/
structure Consistent (c : Catalog) : Prop where
  acyclic : c.Acyclic
  closed : c.Closed
  explicit : ∀ name ∈ c.explicit, c.isEnabled name = true
  needed : ∀ name, c.isEnabled name = true → name ∉ c.explicit →
    ∃ user, c.isEnabled user = true ∧ name ∈ c.effectiveDeps user
  accounted : c.Accounted

/-! ## What was pulled in -/

section

variable {name : String}

/-- A module that was pulled in was not enabled, and the selected one depends on it. -/
theorem transGen_of_mem_enable {other : String} (h : other ∈ (c.enable name).2) :
    c.isEnabled other = false ∧ Relation.TransGen c.DependsOn name other := by
  have hgraph := sameGraph_switchOn_askFor c name
  have hmem := pull_mem_induction
    (P := fun n => c.isModule n = true → Relation.TransGen c.DependsOn name n)
    (fun dep hdep hmod => .single ⟨by rwa [← hgraph.effectiveDeps name], hmod⟩)
    (fun user hP husermod _ dep hdep hmod =>
      (hP (by rwa [← hgraph.isModule user])).tail ⟨by rwa [← hgraph.effectiveDeps user], hmod⟩)
    other h
  refine ⟨?_, hmem.1 (by rw [← hgraph.isModule other]; exact hmem.2.1)⟩
  by_contra hon
  have hasked : (c.askFor name).isEnabled other = true := by rwa [Bool.not_eq_false] at hon
  have hoff := hmem.2.2
  rw [isEnabled_switchOn_of_isEnabled hasked] at hoff
  cases hoff

/-- A module that was pulled in is there for the selected one or for another that was pulled in. -/
theorem exists_user_of_mem_enable {other : String} (h : other ∈ (c.enable name).2) :
    ∃ user, (user = name ∨ user ∈ (c.enable name).2) ∧ other ∈ c.effectiveDeps user := by
  have hgraph := sameGraph_switchOn_askFor c name
  rcases exists_user_of_mem_pull h with hdep | ⟨user, huser, hdep⟩
  · exact ⟨name, .inl rfl, by rwa [← hgraph.effectiveDeps name]⟩
  · exact ⟨user, .inr huser, by rwa [← hgraph.effectiveDeps user]⟩

end

/-! ## Withdrawing the module -/

section

variable {name : String} (hc : c.Consistent) (hbuilt : c.IsBuilt) (hname : c.isModule name = true)
  (hoff : c.isEnabled name = false)

include hc hname hoff

/-- Nothing that is enabled after selecting a module depends on it: not what was enabled before, because
it was closed, nor what was pulled in, because there are no cycles. -/
theorem Consistent.not_enabled_of_user {user : String}
    (huser : name ∈ c.effectiveDeps user) : (c.enable name).1.isEnabled user = false := by
  by_contra hon
  rcases (isEnabled_enable_iff hname user).1 (by simpa using hon) with hon | rfl | hpulled
  · rw [hc.closed user hon name huser hname] at hoff
    cases hoff
  · exact hc.acyclic _ (.single ⟨huser, hname⟩)
  · exact hc.acyclic name ((transGen_of_mem_enable hpulled).2.tail ⟨huser, hname⟩)

include hbuilt

/-- So withdrawing it disables nothing else. -/
theorem Consistent.withdraw_enable :
    ((c.enable name).1.withdraw name).1.disabled = []
      ∧ ((c.enable name).1.withdraw name).2 = (c.enable name).1.switchOff name
      ∧ ((c.enable name).1.withdraw name).1.orphans
        = ((c.enable name).1.switchOff name).orphansOf
            (((c.enable name).1).dependenciesOf [name]) := by
  have hdependents : ∀ user ∈ ((c.enable name).1.switchOff name).hardDependents name,
      ((c.enable name).1.switchOff name).isEnabled user = false := by
    intro user huser
    have hdeclared : ((c.enable name).1.switchOff name).declared = c.declared :=
      (declared_switchOff _ name).trans (declared_enable c name)
    rw [hardDependents_congr hdeclared] at huser
    obtain ⟨m, hm, hdep⟩ := hbuilt.mem_hardDependents.1 huser
    rw [isEnabled_switchOff]
    split
    · rfl
    · exact hc.not_enabled_of_user hname hoff (mem_effectiveDeps_iff.2 ⟨m, hm, .inl hdep⟩)
  simp [withdraw, cascade_of_disabled hdependents]

omit hbuilt in
theorem Consistent.isEnabled_switchOff_enable (other : String) :
    ((c.enable name).1.switchOff name).isEnabled other = true
      ↔ c.isEnabled other = true ∨ other ∈ (c.enable name).2 := by
  have hself : name ∉ (c.enable name).2 := fun hmem =>
    hc.acyclic name (transGen_of_mem_enable hmem).2
  rw [isEnabled_switchOff]
  by_cases hother : other = name
  · subst hother
    simp [hoff, hself]
  · rw [if_neg hother, isEnabled_enable_iff hname]
    simp [hother]

omit hbuilt hname in
theorem Consistent.explicit_switchOff_enable :
    ((c.enable name).1.switchOff name).explicit = c.explicit := by
  have hnot : name ∉ c.explicit := fun hmem => by
    rw [hc.explicit name hmem] at hoff
    cases hoff
  have hexplicit : ((c.enable name).1.switchOff name).explicit = (c.explicit.insert name).erase name := by
    rw [← explicit_enable]
    rfl
  rw [hexplicit]
  refine NameSet.ext_mem fun other => ?_
  rw [NameSet.mem_erase, NameSet.mem_insert]
  constructor
  · rintro ⟨hne, heq | hmem⟩
    · exact absurd heq hne
    · exact hmem
  · intro hmem
    exact ⟨fun heq => hnot (heq ▸ hmem), .inr hmem⟩

/-! ## The orphans -/

/-- Idle modules that are taken out in turn are such that were pulled in: the first other one would be
needed by a module that was enabled before, and that was not taken out. -/
theorem Consistent.mem_enable_of_idleInTurn {released : List String}
    (h : ((c.enable name).1.switchOff name).IdleInTurn released) :
    ∀ other ∈ released, other ∈ (c.enable name).2 := by
  have hgraph : SameGraph ((c.enable name).1.switchOff name) c :=
    (sameGraph_switchOff _ name).trans (sameGraph_enable c name)
  have henabled := hc.isEnabled_switchOff_enable hname hoff
  induction h with
  | nil => simp
  | @append released last h hidle ih =>
      obtain ⟨hnew, hon, hnot, huseless⟩ := (isIdle_iff (hbuilt.congr hgraph.declared)).1 hidle
      intro other hother
      rcases List.mem_append.1 hother with hother | hother
      · exact ih other hother
      · rw [List.mem_singleton.1 hother]
        refine ((henabled last).1 hon).resolve_left fun hbefore => ?_
        rw [hc.explicit_switchOff_enable hoff] at hnot
        obtain ⟨user, huser, hdep⟩ := hc.needed last hbefore hnot
        have hstays : user ∉ released := fun hmem => by
          have hoff' := (transGen_of_mem_enable (ih user hmem)).1
          rw [huser] at hoff'
          cases hoff'
        refine huseless user ((henabled user).2 (.inl huser)) hstays ?_
        rwa [hgraph.effectiveDeps user]

/-- The orphans are the modules that were pulled in. -/
theorem Consistent.mem_orphansOf_iff (other : String) :
    other ∈ ((c.enable name).1.switchOff name).orphansOf ((c.enable name).1.dependenciesOf [name])
      ↔ other ∈ (c.enable name).2 := by
  have hgraph : SameGraph ((c.enable name).1.switchOff name) c :=
    (sameGraph_switchOff _ name).trans (sameGraph_enable c name)
  have henabled := hc.isEnabled_switchOff_enable hname hoff
  refine ⟨hc.mem_enable_of_idleInTurn hbuilt hname hoff (idleInTurn_orphansOf _ _) other, ?_⟩
  -- From users to dependencies: a pulled module whose pulled users are all found is idle itself.
  induction other using hc.acyclic.wellFounded.induction with
  | _ other ih =>
    intro hpulled
    by_contra hmissing
    obtain ⟨hbefore, hpath⟩ := transGen_of_mem_enable hpulled
    have hmod : c.isModule other = true := by
      obtain ⟨user, -, hlast⟩ := Relation.TransGen.tail'_iff.1 hpath
      exact hlast.2
    have hcandidate : other ∈ (c.enable name).1.dependenciesOf [name]
        ∨ ∃ user ∈ ((c.enable name).1.switchOff name).orphansOf
            ((c.enable name).1.dependenciesOf [name]),
          other ∈ ((c.enable name).1.switchOff name).effectiveDeps user
            ∧ ((c.enable name).1.switchOff name).isModule other = true := by
      obtain ⟨user, huser, hdep⟩ := exists_user_of_mem_enable hpulled
      rcases huser with rfl | huser
      · refine .inl (mem_dependenciesOf.2 ⟨⟨user, List.mem_singleton.2 rfl, ?_⟩, ?_⟩)
        · rwa [(sameGraph_enable c user).effectiveDeps user]
        · rwa [(sameGraph_enable c user).isModule other]
      · refine .inr ⟨user, ih user ⟨hdep, hmod⟩ huser, ?_, ?_⟩
        · rwa [hgraph.effectiveDeps user]
        · rwa [hgraph.isModule other]
    have hbusy := isIdle_orphansOf hcandidate
    have hidle := (isIdle_iff (hbuilt.congr hgraph.declared)).2
      ⟨hmissing, (henabled other).2 (.inr hpulled), ?_, ?_⟩
    · rw [hidle] at hbusy
      cases hbusy
    · rw [hc.explicit_switchOff_enable hoff]
      intro hmem
      rw [hc.explicit other hmem] at hbefore
      cases hbefore
    · intro user hon hstays hdep
      rw [hgraph.effectiveDeps user] at hdep
      rcases (henabled user).1 hon with huser | huser
      · rw [hc.closed user huser other hdep hmod] at hbefore
        cases hbefore
      · exact hstays (ih user ⟨hdep, hmod⟩ huser)

end

/-! ## Releasing -/

/-- Whether a state has what is enabled and asked for in another one. -/
structure Above (c d : Catalog) : Prop where
  graph : SameGraph d c
  enabled : ∀ name, c.isEnabled name = true → d.isEnabled name = true
  explicit : ∀ name ∈ c.explicit, name ∈ d.explicit

theorem Above.refl (c : Catalog) : Above c c :=
  ⟨.refl c, fun _ h => h, fun _ h => h⟩

theorem Above.trans {e : Catalog} (h : Above c d) (h' : Above d e) : Above c e :=
  ⟨h'.graph.trans h.graph, fun name hon => h'.enabled name (h.enabled name hon),
    fun name hmem => h'.explicit name (h.explicit name hmem)⟩

theorem Above.isModule {name : String} (h : Above c d) (hon : d.isEnabled name = true) :
    c.isModule name = true := by
  rw [← h.graph.isModule name]
  exact isModule_of_isEnabled hon

theorem above_switchOff (c : Catalog) (name : String) : Above (c.switchOff name) c where
  graph := (sameGraph_switchOff c name).symm
  enabled other hon := by
    rw [isEnabled_switchOff] at hon
    split at hon
    · cases hon
    · exact hon
  explicit _ hmem := (NameSet.mem_erase.1 hmem).2

/-- Releasing modules only takes away. -/
theorem above_release (c : Catalog) (names : List String) : Above (c.release names).2 c := by
  have hoff : ∀ d name, Above d c → Above (d.switchOff name) c :=
    fun d name hd => (above_switchOff d name).trans hd
  refine release_induction (P := fun d => Above d c) (fun d name _ hd => ?_) names (.refl c)
  exact cascade_induction hoff _ (hoff d name hd)

theorem isEnabled_release {names : List String} {name : String} (hname : name ∈ names) :
    (c.release names).2.isEnabled name = false := by
  induction names generalizing c with
  | nil => simp at hname
  | cons first names ih =>
      rw [release]
      by_cases hmem : name ∈ names
      · split
        · exact ih hmem
        · exact ih hmem
      · obtain rfl : name = first := (List.mem_cons.1 hname).resolve_right hmem
        by_contra hon
        split at hon
        · have hbefore := (above_release (c.withdraw name).2 names).enabled name (by simpa using hon)
          rw [withdraw_snd, isEnabled_cascade, isEnabled_switchOff, if_pos rfl] at hbefore
          cases hbefore.1
        · next hoff => exact hoff ((above_release c names).enabled name (by simpa using hon))

section

variable (hc : c.Coherent) (hbuilt : c.IsBuilt)

include hc

theorem Above.switchOff {name : String} (h : Above c d) (hoff : c.isEnabled name = false) :
    Above c (d.switchOff name) where
  graph := (sameGraph_switchOff d name).trans h.graph
  enabled other hon := by
    have hne : other ≠ name := fun heq => by
      rw [heq, hoff] at hon
      cases hon
    rw [isEnabled_switchOff, if_neg hne]
    exact h.enabled other hon
  explicit other hmem := by
    refine NameSet.mem_erase.2 ⟨fun heq => ?_, h.explicit other hmem⟩
    have hon := hc.explicit other hmem
    rw [heq, hoff] at hon
    cases hon

include hbuilt

/-- What depends on a module that is not enabled is not enabled either. -/
theorem Above.hardDependents {name user : String} (h : Above c d) (hmod : c.isModule name = true)
    (hoff : c.isEnabled name = false) (huser : user ∈ d.hardDependents name) :
    c.isEnabled user = false := by
  rw [hardDependents_congr h.graph.declared] at huser
  obtain ⟨m, hm, hdep⟩ := hbuilt.mem_hardDependents.1 huser
  by_contra hon
  obtain ⟨m', hm', he⟩ := isEnabled_iff.1 (by simpa using hon)
  rw [hm, Option.some.injEq] at hm'
  subst hm'
  rw [hc.depends user m hm he name hdep hmod] at hoff
  cases hoff

/-- Disabling what is not enabled in the lower state takes nothing from it. -/
theorem Above.cascade {todo : List String} (h : Above c d)
    (hoff : ∀ name ∈ todo, c.isEnabled name = false) : Above c (d.cascade todo).1 := by
  fun_induction Catalog.cascade d todo with
  | case1 d => exact h
  | case2 d name rest hon d' after names heq ih =>
      rw [heq] at ih
      have hname := hoff name List.mem_cons_self
      have hswitched := h.switchOff hc hname
      refine ih hswitched fun other hother => ?_
      rcases List.mem_append.1 hother with hother | hother
      · exact hswitched.hardDependents hc hbuilt (h.isModule hon) hname hother
      · exact hoff other (List.mem_cons_of_mem _ hother)
  | case3 d name rest _ ih => exact ih h fun other hother => hoff other (List.mem_cons_of_mem _ hother)

theorem Above.release {names : List String} (h : Above c d)
    (hoff : ∀ name ∈ names, c.isEnabled name = false) : Above c (d.release names).2 := by
  induction names generalizing d with
  | nil => exact h
  | cons name names ih =>
      have hrest : ∀ other ∈ names, c.isEnabled other = false :=
        fun other hother => hoff other (List.mem_cons_of_mem _ hother)
      rw [Catalog.release]
      split
      · next hon =>
        have hname := hoff name List.mem_cons_self
        have hswitched := h.switchOff hc hname
        refine ih (hswitched.cascade hc hbuilt fun user huser => ?_) hrest
        exact hswitched.hardDependents hc hbuilt (h.isModule hon) hname huser
      · exact ih h hrest

end

/-! ## The whole round -/

theorem Consistent.coherent (hc : c.Consistent) : c.Coherent where
  depends name m hm he dep hdep hmod :=
    hc.closed name (isEnabled_iff.2 ⟨m, hm, he⟩) dep (mem_effectiveDeps_iff.2 ⟨m, hm, .inl hdep⟩) hmod
  explicit := hc.explicit
  contributions name hname := by
    by_contra hon
    rw [NameMap.mem_keys_iff, hc.accounted.disabled name (by simpa using hon)] at hname
    cases hname

/-- A numbering that falls from each module to what it depends on rules out cycles. -/
theorem Acyclic.of_rank (rank : String → Nat)
    (h : ∀ user dep, c.DependsOn user dep → rank dep < rank user) : c.Acyclic := by
  intro name hcycle
  have hfalls : ∀ {other}, Relation.TransGen c.DependsOn name other → rank other < rank name := by
    intro other hpath
    induction hpath with
    | single hstep => exact h _ _ hstep
    | tail _ hstep ih => exact (h _ _ hstep).trans ih
  exact Nat.lt_irrefl _ (hfalls hcycle)

/-- Nothing is enabled in a fresh catalogue, so that there is nothing to be consistent. -/
theorem consistent_build (sourceRoot : String) (modules : List Module) (headers : List Header)
    (lists : List ValueList) (hacyclic : (build sourceRoot modules headers lists).Acyclic) :
    (build sourceRoot modules headers lists).Consistent := by
  have hoff := isEnabled_build sourceRoot modules headers lists
  have hbuilt := isBuilt_build sourceRoot modules headers lists
  refine ⟨hacyclic, fun user hon => ?_, fun name hmem => ?_, fun name hon => ?_, ?_⟩
  · rw [hoff user] at hon
    cases hon
  · exact absurd hmem (NameSet.not_mem_empty name)
  · rw [hoff name] at hon
    cases hon
  · refine (accounted_iff hbuilt).2 ⟨balanced_build sourceRoot modules headers lists, fun name => ?_⟩
    exact current_copies_build sourceRoot modules headers lists [] name

/-- Selecting a module keeps a consistent state. -/
theorem Consistent.enable (hc : c.Consistent) (hbuilt : c.IsBuilt) {name : String}
    (hname : c.isModule name = true) : (c.enable name).1.Consistent := by
  have hgraph := sameGraph_enable c name
  refine ⟨?_, hc.closed.enable name, (hc.coherent.enable hname).explicit, ?_, ?_⟩
  · have hdepends : (c.enable name).1.DependsOn = c.DependsOn := by
      funext user dep
      rw [DependsOn, DependsOn, hgraph.effectiveDeps user, hgraph.isModule dep]
    intro other hcycle
    rw [hdepends] at hcycle
    exact hc.acyclic other hcycle
  · intro other hon hnot
    rw [explicit_enable, NameSet.mem_insert, not_or] at hnot
    have henabled := isEnabled_enable_iff hname
    rcases (henabled other).1 hon with hon | heq | hpulled
    · obtain ⟨user, huser, hdep⟩ := hc.needed other hon hnot.2
      exact ⟨user, (henabled user).2 (.inl huser), by rwa [hgraph.effectiveDeps user]⟩
    · exact absurd heq hnot.1
    · obtain ⟨user, huser, hdep⟩ := exists_user_of_mem_enable hpulled
      exact ⟨user, (henabled user).2 (.inr huser), by rwa [hgraph.effectiveDeps user]⟩
  · obtain ⟨hbalanced, hcurrent⟩ := (accounted_iff hbuilt).1 hc.accounted
    have hrun : c.run [.select name] = (c.enable name).1 := step_select hname
    rw [← hrun]
    exact (accounted_iff (hbuilt.run _)).2
      ⟨hbalanced.run _, current_run hbuilt hcurrent (by simp [Operation.takesCopy])⟩

/-- What the orphans are released from is the state from before. -/
theorem Consistent.release_orphansOf (hc : c.Consistent) (hbuilt : c.IsBuilt) {name : String}
    (hname : c.isModule name = true) (hoff : c.isEnabled name = false) :
    let after := (c.enable name).1.switchOff name
    let orphans := after.orphansOf ((c.enable name).1.dependenciesOf [name])
    Above c (after.release orphans).2 ∧ Above (after.release orphans).2 c := by
  intro after orphans
  have henabled := hc.isEnabled_switchOff_enable hname hoff
  have horphans := hc.mem_orphansOf_iff hbuilt hname hoff
  have hexplicit : after.explicit = c.explicit := hc.explicit_switchOff_enable hoff
  have hgraph : SameGraph after c := (sameGraph_switchOff _ name).trans (sameGraph_enable c name)
  have hafter : Above c after :=
    ⟨hgraph, fun other hon => (henabled other).2 (.inl hon), fun other hmem => hexplicit ▸ hmem⟩
  have hlower : Above (after.release orphans).2 after := above_release after orphans
  constructor
  · refine hafter.release hc.coherent hbuilt fun other hother => ?_
    exact (transGen_of_mem_enable ((horphans other).1 hother)).1
  · refine ⟨hgraph.symm.trans hlower.graph, fun other hon => ?_, fun other hmem => ?_⟩
    · refine ((henabled other).1 (hlower.enabled other hon)).resolve_right fun hpulled => ?_
      rw [isEnabled_release ((horphans other).2 hpulled)] at hon
      cases hon
    · exact hexplicit ▸ hlower.explicit other hmem

/-- In a consistent state, selecting a module that is not enabled, unselecting it and releasing the
orphans that this reports succeeds, disables nothing else on the way, and ends in the state from
before. -/
theorem release_unselect_select (hbuilt : c.IsBuilt) (hc : c.Consistent) {name : String}
    (hname : c.isModule name = true) (hoff : c.isEnabled name = false) :
    ∃ selected c₁ unselected c₂, c.select name = .ok (selected, c₁)
      ∧ c₁.unselect name = .ok (unselected, c₂) ∧ unselected.disabled = []
      ∧ (c₂.release unselected.orphans).2 = c := by
  obtain ⟨hdisabled, hwithdraw, horphans⟩ := hc.withdraw_enable hbuilt hname hoff
  have hmod : (c.enable name).1.isModule name = true := by
    rwa [(sameGraph_enable c name).isModule name]
  have hselect := select_of_isModule hname
  have hunselect := unselect_of_isModule hmod
  refine ⟨_, _, ((c.enable name).1.withdraw name).1, ((c.enable name).1.withdraw name).2, hselect,
    hunselect, hdisabled, ?_⟩
  let after := (c.enable name).1.switchOff name
  let orphans := after.orphansOf ((c.enable name).1.dependenciesOf [name])
  have hrun : c.run [.select name, .unselect name, .release orphans] = (after.release orphans).2 := by
    rw [run, List.foldl_cons, step_select hname, List.foldl_cons, step_unselect hmod, hwithdraw]
    rfl
  rw [hwithdraw, horphans]
  obtain ⟨hupper, hlower⟩ := hc.release_orphansOf hbuilt hname hoff
  obtain ⟨hbalanced, hcurrent⟩ := (accounted_iff hbuilt).1 hc.accounted
  have hgraph : SameGraph (after.release orphans).2 c := hupper.graph
  have henabled : ∀ other, (after.release orphans).2.isEnabled other = c.isEnabled other := by
    intro other
    rw [Bool.eq_iff_iff]
    exact ⟨hlower.enabled other, hupper.enabled other⟩
  refine eq_of_state hgraph henabled (NameSet.ext_mem fun other => ?_) ?_ ?_ hbalanced
  · exact ⟨hlower.explicit other, hupper.explicit other⟩
  · refine NameMap.ext_get? fun other => ?_
    have hops : ∀ op ∈ [.select name, .unselect name, Operation.release orphans],
        op.takesCopy = false := by
      simp [Operation.takesCopy]
    have hreleased := current_run hbuilt hcurrent hops other
    rw [hrun] at hreleased
    rw [hreleased, hcurrent other, bareFiles_congr (fun n => hgraph.isModule n) (henabled other)
      fun _ => hgraph.effectiveDeps other]
  · rw [← hrun]
    exact hbalanced.run _

/-- Selecting `spi` pulls in `dma`, while `irq` is there already. -/
theorem release_unselect_select_busModules :
    let tree := build "" busModules [busHeader] []
    let c := (tree.enable "irq").1
    c.IsBuilt ∧ c.Consistent ∧ c.isModule "spi" = true ∧ c.isEnabled "spi" = false
      ∧ ∃ selected c₁ unselected c₂, c.select "spi" = .ok (selected, c₁)
        ∧ c₁.unselect "spi" = .ok (unselected, c₂) ∧ unselected.disabled = []
        ∧ (c₂.release unselected.orphans).2 = c := by
  intro tree c
  have hacyclic : tree.Acyclic := by
    refine .of_rank (fun name => if name = "spi" ∨ name = "uart" then 1 else 0) ?_
    have hranks : ∀ user ∈ tree.modules.keys, ∀ dep ∈ tree.effectiveDeps user,
        tree.isModule dep = true →
          (if dep = "spi" ∨ dep = "uart" then 1 else 0)
            < if user = "spi" ∨ user = "uart" then 1 else 0 := by
      decide +kernel
    intro user dep hdep
    obtain ⟨m, hm, -⟩ := mem_effectiveDeps_iff.1 hdep.1
    exact hranks user (NameMap.mem_keys_iff.2 (isModule_iff.2 ⟨m, hm⟩)) dep hdep.1 hdep.2
  have hbuilt : tree.IsBuilt := isBuilt_build ..
  have hirq : tree.isModule "irq" = true := by decide +kernel
  have hc : c.Consistent := (consistent_build _ _ _ _ hacyclic).enable hbuilt hirq
  have hcbuilt : c.IsBuilt := hbuilt.congr (declared_enable tree "irq")
  have hspi : c.isModule "spi" = true := by
    rw [(sameGraph_enable tree "irq").isModule]
    decide +kernel
  have hoff : c.isEnabled "spi" = false := by
    show ((build "" busModules [busHeader] []).enable "irq").1.isEnabled "spi" = false
    cbv
  exact ⟨hcbuilt, hc, hspi, hoff, release_unselect_select hcbuilt hc hspi hoff⟩

end Configurator.Catalog
