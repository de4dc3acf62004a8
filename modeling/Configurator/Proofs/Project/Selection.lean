import Configurator.Proofs.Project.Missing
import Configurator.Proofs.Project.Recording

/-!
# What restoring selects

Once a project is restored, the enabled modules are the least set that holds the recorded modules and all
that its members depend on under the restored values (`applyTo_spec`). Restoring selects one name after
the other and skips some of those that are enabled when their turn comes; but a least set knows nothing
about turns, so neither the order of the recorded names matters nor how often they are recorded.
-/

namespace Configurator

namespace Catalog

variable {c d : Catalog} {names names' : List String} {s : Set String}

/-- Whether a set holds the modules among some names, and the modules that its members depend on. -/
structure HeldBy (c : Catalog) (names : List String) (s : Set String) : Prop where
  listed : ∀ name ∈ names, c.isModule name = true → name ∈ s
  depended : ∀ user ∈ s, ∀ dep ∈ c.effectiveDeps user, c.isModule dep = true → dep ∈ s

theorem isLeast_needed (c : Catalog) (names : List String) :
    IsLeast {s | c.HeldBy names s} {name | Needed c names name} := by
  refine ⟨⟨fun _ => .listed, fun _ huser _ => .depended huser⟩, fun s hs name hneed => ?_⟩
  exact needed_induction hs.listed hs.depended hneed

theorem HeldBy.congr (h : c.HeldBy names s) (hgraph : SameGraph c d)
    (hnames : ∀ name ∈ names', name ∈ names) : d.HeldBy names' s := by
  refine ⟨fun name hname hmod => ?_, fun user huser dep hdep hmod => ?_⟩
  · exact h.listed name (hnames name hname) (by rwa [hgraph.isModule])
  · exact h.depended user huser dep (by rwa [hgraph.effectiveDeps]) (by rwa [hgraph.isModule])

theorem contributions_eq_of_current (hgraph : SameGraph c d)
    (henabled : ∀ name, c.isEnabled name = d.isEnabled name) (hc : ∀ name, c.Current name)
    (hd : ∀ name, d.Current name) : c.contributions = d.contributions := by
  refine NameMap.ext_get? fun name => ?_
  have hfiles : c.bareFiles name = d.bareFiles name :=
    bareFiles_congr hgraph.isModule (henabled name) fun _ => hgraph.effectiveDeps name
  rw [hc name, hd name, hfiles]

/-- Which names are added, up to their order, only depends on which there are. -/
theorem foldl_addNew_perm {more more' : List String} (names : List String)
    (hsame : ∀ name, name ∈ more' ↔ name ∈ more) :
    (more'.foldl addNew names).Perm (more.foldl addNew names) := by
  obtain ⟨added, heq, hnodup, hmem⟩ := exists_foldl_addNew names more
  obtain ⟨added', heq', hnodup', hmem'⟩ := exists_foldl_addNew names more'
  rw [heq, heq']
  refine List.Perm.append_left names ((List.perm_ext_iff_of_nodup hnodup' hnodup).2 fun name => ?_)
  rw [hmem, hmem', hsame]

end Catalog

namespace Project

open Catalog

variable {p p' : Project} {fresh d e : Catalog}

/-- Which modules are enabled, and which asked for, once a project is restored in a fresh catalogue. -/
structure Restores (p : Project) (fresh d : Catalog) : Prop where
  declared : d.declared = fresh.declared
  enabled : IsLeast {s | d.HeldBy (p.enabledModules ++ p.explicitModules) s}
    {name | d.isEnabled name = true}
  explicit : ∀ name, name ∈ d.explicit ↔ d.isModule name = true
    ∧ name ∈ if p.explicitModules = [] then p.enabledModules else p.explicitModules

/-- Whether two projects record the same values and the same modules. -/
structure RecordsSame (p p' : Project) : Prop where
  parameters : p'.parameters = p.parameters
  enabled : ∀ name, name ∈ p'.enabledModules ↔ name ∈ p.enabledModules
  explicit : ∀ name, name ∈ p'.explicitModules ↔ name ∈ p.explicitModules

theorem RecordsSame.mem_modules (h : p.RecordsSame p') {name : String} :
    name ∈ p'.enabledModules ++ p'.explicitModules
      ↔ name ∈ p.enabledModules ++ p.explicitModules := by
  rw [List.mem_append, List.mem_append, h.enabled, h.explicit]

theorem RecordsSame.mem_askedFor (h : p.RecordsSame p') {name : String} :
    name ∈ p'.askedFor ↔ name ∈ p.askedFor := by
  have hnil : p'.explicitModules = [] ↔ p.explicitModules = [] := by
    simp only [List.eq_nil_iff_forall_not_mem, h.explicit]
  unfold askedFor
  simp only [hnil]
  split
  · exact h.enabled name
  · exact h.explicit name

theorem RecordsSame.restoreValues (h : p.RecordsSame p') (c : Catalog) :
    p'.restoreValues c = p.restoreValues c := by
  rw [Project.restoreValues, Project.restoreValues, h.parameters]

/-- Names that are recorded as asked for are among those that are restored. -/
theorem mem_modules_of_askedFor {name : String} (h : name ∈ p.askedFor) :
    name ∈ p.enabledModules ++ p.explicitModules := by
  unfold askedFor at h
  split at h
  · exact List.mem_append_left _ h
  · exact List.mem_append_right _ h

theorem restores_applyTo (hbuilt : fresh.IsBuilt) (hco : fresh.Coherent) (hidle : fresh.Idle)
    (p : Project) : p.Restores fresh (p.applyTo fresh).2 := by
  have hgraph := sameGraph_applyTo hidle p
  have hdecl : (p.applyTo fresh).2.declared = fresh.declared := declared_step fresh (.applyTo p)
  refine ⟨hdecl, ?_, fun name => ⟨fun hname => ?_, fun ⟨hmod, hasked⟩ => ?_⟩⟩
  · have hneeded : {name | (p.applyTo fresh).2.isEnabled name = true}
        = {name | Needed (p.applyTo fresh).2 (p.enabledModules ++ p.explicitModules) name} := by
      ext name
      refine (isEnabled_applyTo hidle p name).trans ⟨fun h => ?_, fun h => h.of_sameGraph hgraph⟩
      exact h.of_sameGraph hgraph.symm
    rw [hneeded]
    exact isLeast_needed _ _
  · have hco' : (p.applyTo fresh).2.Coherent := hco.step hbuilt (.applyTo p)
    exact ⟨isModule_of_isEnabled (hco'.explicit name hname), mem_askedFor_of_explicit hname⟩
  · have hmod' : fresh.isModule name = true := by rwa [← isModule_congr hdecl name]
    exact mem_explicit_of_askedFor hidle (mem_modules_of_askedFor hasked) hasked hmod'

/-- The description leaves no room for two states. -/
theorem Restores.unique (h : p.Restores fresh d) (h' : p'.Restores fresh e) (hsame : p.RecordsSame p')
    (hgraph : SameGraph d e) (hdcurrent : ∀ name, d.Current name) (hecurrent : ∀ name, e.Current name)
    (hd : d.Balanced) (he : e.Balanced) : d = e := by
  have hheld : ∀ s, d.HeldBy (p.enabledModules ++ p.explicitModules) s
      ↔ e.HeldBy (p'.enabledModules ++ p'.explicitModules) s := fun s =>
    ⟨fun hs => hs.congr hgraph fun _ => hsame.mem_modules.1,
      fun hs => hs.congr hgraph.symm fun _ => hsame.mem_modules.2⟩
  have hleast := h.enabled
  simp only [hheld] at hleast
  have henabled : ∀ name, d.isEnabled name = e.isEnabled name := fun name =>
    Bool.eq_iff_iff.2 (Set.ext_iff.1 (hleast.unique h'.enabled) name)
  refine eq_of_state hgraph henabled (NameSet.ext_mem fun name => ?_)
    (contributions_eq_of_current hgraph henabled hdcurrent hecurrent) hd he
  rw [h.explicit, h'.explicit, hgraph.isModule]
  exact and_congr_right fun _ => hsame.mem_askedFor.symm

/-- Whatever copies of headers were taken over by a fresh catalogue, and whatever a project records: once
it is restored, the enabled modules are the least set that holds the recorded modules and what its members
depend on, and those are asked for that are recorded so, or all recorded modules if none is. The same
state is reached, and up to their order the same names are missing, if the names are recorded in a
different order or several times. -/
theorem applyTo_spec (sourceRoot : String) (modules : List Module) (headers : List Header)
    (lists : List ValueList) (copies : List (String × String)) (p : Project) :
    let fresh := (build sourceRoot modules headers lists).run
      (copies.map fun e => .applyUserConfiguration e.1 e.2)
    p.Restores fresh (p.applyTo fresh).2
      ∧ ∀ p', p.RecordsSame p' → (p'.applyTo fresh).2 = (p.applyTo fresh).2
        ∧ (p'.applyTo fresh).1.Perm (p.applyTo fresh).1 := by
  intro fresh
  have hbuilt : fresh.IsBuilt := (isBuilt_build sourceRoot modules headers lists).run _
  have hco : fresh.Coherent := coherent_run_build sourceRoot modules headers lists _
  have hidle : fresh.Idle := idle_run_copies_build sourceRoot modules headers lists copies
  have hbalanced : ∀ q : Project, (q.applyTo fresh).2.Balanced := fun q =>
    ((balanced_build sourceRoot modules headers lists).run _).step (.applyTo q)
  have hcurrent : ∀ (q : Project) (name : String), (q.applyTo fresh).2.Current name := fun q => by
    have hop : (Operation.applyTo q).takesCopy = false := rfl
    exact current_step hbuilt (current_copies_build sourceRoot modules headers lists copies) hop
  refine ⟨restores_applyTo hbuilt hco hidle p, fun p' hsame => ⟨?_, ?_⟩⟩
  · have hgraph : SameGraph (p.applyTo fresh).2 (p'.applyTo fresh).2 := by
      refine (sameGraph_applyTo hidle p).trans ?_
      rw [← hsame.restoreValues]
      exact (sameGraph_applyTo hidle p').symm
    exact ((restores_applyTo hbuilt hco hidle p).unique (restores_applyTo hbuilt hco hidle p') hsame
      hgraph (hcurrent p) (hcurrent p') (hbalanced p) (hbalanced p')).symm
  · rw [fst_applyTo hidle, fst_applyTo hidle, hsame.restoreValues]
    refine foldl_addNew_perm _ fun name => ?_
    rw [List.mem_filter, List.mem_filter, hsame.mem_modules]

/-- There is no module `can`. Whether it is recorded behind `uart` or both in front of it and behind it
makes no difference. -/
theorem applyTo_spec_busModules :
    let fresh := (build "" busModules [busHeader] []).run
      ([("cfg_bus.h", "/// fast\n#define CONFIG_FAST 1\n")].map fun e =>
        .applyUserConfiguration e.1 e.2)
    let p := { (default : Project) with enabledModules := ["uart", "can"], explicitModules := ["uart"] }
    let p' := { p with enabledModules := ["can", "uart", "can"] }
    p.Restores fresh (p.applyTo fresh).2
      ∧ p.RecordsSame p' ∧ (p'.applyTo fresh).2 = (p.applyTo fresh).2
        ∧ (p'.applyTo fresh).1.Perm (p.applyTo fresh).1 := by
  intro fresh p p'
  have hsame : p.RecordsSame p' := by
    refine ⟨rfl, fun name => ?_, fun _ => Iff.rfl⟩
    simp only [p, p', List.mem_cons, List.not_mem_nil, or_false]
    tauto
  obtain ⟨hrestores, horder⟩ := applyTo_spec "" busModules [busHeader] []
    [("cfg_bus.h", "/// fast\n#define CONFIG_FAST 1\n")] p
  exact ⟨hrestores, hsame, horder p' hsame⟩

end Project

end Configurator
