import Configurator.Proofs.Catalog.Balance
import Configurator.Proofs.Catalog.Coherence
import Configurator.Proofs.Catalog.Parameters

/-!
# Bare files in use

What is recorded for a module are the bare files that it depends on now (`Current`): whatever changes
what a module depends on while it is enabled refreshes what is recorded for it. Taking values over from
a copy of a header is the exception, so that it may only come before anything is enabled. With the
balance of the counts this says what each count is (`Accounted`).
-/

namespace Configurator

namespace Catalog

variable {c d : Catalog}

/-! ## Current contributions -/

theorem bareFiles_congr {name : String} (hmodule : ∀ other, d.isModule other = c.isModule other)
    (henabled : d.isEnabled name = c.isEnabled name)
    (hdeps : c.isEnabled name = true → d.effectiveDeps name = c.effectiveDeps name) :
    d.bareFiles name = c.bareFiles name := by
  unfold bareFiles
  rw [henabled]
  cases he : c.isEnabled name with
  | false => rfl
  | true =>
      rw [hdeps he]
      simp only [hmodule]

theorem bareFiles_withParameter (hbuilt : c.IsBuilt) {configuration name other : String}
    {old new : Parameter} (hold : c.parameter configuration name = .ok old)
    (hdecl : new.declared = old.declared)
    (h : (c.withParameter configuration name new).IsQuiet configuration old new
      ∨ other ∉ c.owners configuration) :
    (c.withParameter configuration name new).bareFiles other = c.bareFiles other := by
  refine bareFiles_congr (fun _ => rfl) rfl fun he => effectiveDeps_withParameter hold hdecl ?_
  have hbound : other ∉ c.owners configuration →
      ∀ m, c.module? other = some m → m.configuration ≠ some configuration := by
    intro hnot m hm hpath
    obtain ⟨m', hm', hen⟩ := isEnabled_iff.1 he
    rw [hm, Option.some.injEq] at hm'
    exact hnot ((mem_owners hbuilt).2 ⟨m, hm, hm' ▸ hen, hpath⟩)
  rcases h with (htype | hdeps | howners | hset) | hnot
  · exact .inr (.inl htype)
  · exact .inr (.inr (.inl hdeps))
  · have hnone : c.owners configuration = [] := howners
    exact .inl (hbound (by simp [hnone]))
  · exact .inr (.inr (.inr hset))
  · exact .inl (hbound hnot)

theorem bareFiles_refreshContribution (c : Catalog) (name other : String) :
    (c.refreshContribution name).bareFiles other = c.bareFiles other := rfl

theorem current_refreshContribution {name other : String} :
    (c.refreshContribution name).Current other ↔ other = name ∨ c.Current other := by
  unfold Current
  rw [get?_contributions_refreshContribution, bareFiles_refreshContribution]
  by_cases h : other = name
  · simp [h]
  · simp [h]

theorem current_refreshAll {names : List String} {other : String} :
    (c.refreshAll names).Current other ↔ other ∈ names ∨ c.Current other := by
  induction names generalizing c with
  | nil => simp [refreshAll]
  | cons name names ih =>
      have hcons : c.refreshAll (name :: names) = (c.refreshContribution name).refreshAll names := rfl
      rw [hcons, ih, current_refreshContribution, List.mem_cons]
      tauto

theorem Current.congr {name : String} (hc : c.Current name)
    (hcontribution : d.contributions.get? name = c.contributions.get? name)
    (hfiles : d.bareFiles name = c.bareFiles name) : d.Current name := by
  unfold Current
  rw [hcontribution, hfiles]
  exact hc

theorem Current.switchOn {name other : String} (hc : c.Current other) :
    (c.switchOn name).Current other := by
  refine current_refreshContribution.2 (or_iff_not_imp_left.2 fun hne => hc.congr rfl ?_)
  have hgraph := sameGraph_switchOn c name
  refine bareFiles_congr (fun n => hgraph.isModule n) ?_ fun _ => hgraph.effectiveDeps other
  rw [← isEnabled_switchOn c name other |>.trans (if_neg hne)]
  rfl

theorem Current.switchOff {name other : String} (hc : c.Current other) :
    (c.switchOff name).Current other := by
  refine current_refreshContribution.2 (or_iff_not_imp_left.2 fun hne => hc.congr rfl ?_)
  have hgraph := sameGraph_switchOff c name
  refine bareFiles_congr (fun n => hgraph.isModule n) ?_ fun _ => hgraph.effectiveDeps other
  rw [← isEnabled_switchOff c name other |>.trans (if_neg hne)]
  rfl

theorem get?_contributions_refreshAll_of_not_mem {names : List String} {other : String}
    (h : other ∉ names) :
    (c.refreshAll names).contributions.get? other = c.contributions.get? other := by
  induction names generalizing c with
  | nil => rfl
  | cons name names ih =>
      rw [List.mem_cons, not_or] at h
      refine (ih h.2).trans ?_
      rw [get?_contributions_refreshContribution, if_neg h.1]

/-- The walk that enables refreshes what it adds. -/
theorem current_pull_of_mem {todo : List String} {name : String} (h : name ∈ (c.pull todo).2) :
    (c.pull todo).1.Current name := by
  fun_induction pull c todo with
  | case1 c => simp at h
  | case2 c dep rest _ c' after names heq ih =>
      rw [heq] at ih
      rcases List.mem_cons.1 h with rfl | h
      · have hon : c'.Current name := current_refreshContribution.2 (.inl rfl)
        have hafter := pull_induction (P := fun d => d.Current name) (fun _ _ hd => hd.switchOn)
          (c'.effectiveDeps name ++ rest) hon
        rwa [heq] at hafter
      · exact ih h
  | case3 c dep rest _ ih => exact ih h

theorem get?_contributions_pull_of_not_mem {todo : List String} {name : String}
    (h : name ∉ (c.pull todo).2) :
    (c.pull todo).1.contributions.get? name = c.contributions.get? name := by
  fun_induction pull c todo with
  | case1 c => rfl
  | case2 c dep rest _ c' after names heq ih =>
      rw [heq] at ih
      rw [List.mem_cons, not_or] at h
      refine (ih h.2).trans ?_
      exact (get?_contributions_refreshContribution _ dep name).trans (if_neg h.1)
  | case3 c dep rest _ ih => exact ih h

/-- Giving a parameter a value leaves every contribution current: if something follows from it, the
modules that it changes are the owners, and those are refreshed. -/
theorem current_setParameter (hbuilt : c.IsBuilt) (hc : ∀ name, c.Current name)
    {configuration name value : String} {change : Change}
    (h : c.setParameter configuration name value = .ok (change, d)) : ∀ other, d.Current other := by
  obtain ⟨old, new, e, hold, hnew, rfl, hd⟩ := setParameter_eq_ok h
  have hfiles : ∀ other, (c.withParameter configuration name new).IsQuiet configuration old new
        ∨ other ∉ c.owners configuration →
      (c.withParameter configuration name new).bareFiles other = c.bareFiles other :=
    fun _ => bareFiles_withParameter hbuilt hold (Parameter.declared_accept hnew)
  have hrefreshed : ∀ other, ((c.withParameter configuration name new).refreshAll
      ((c.withParameter configuration name new).owners configuration)).Current other := by
    intro other
    refine current_refreshAll.2 (or_iff_not_imp_left.2 fun hnot => ?_)
    exact (hc other).congr rfl (hfiles other (.inr hnot))
  rcases hd with ⟨hquiet, rfl⟩ | ⟨-, -, rfl⟩ | ⟨-, -, rfl⟩
  · exact fun other => (hc other).congr rfl (hfiles other (.inl hquiet))
  · exact pull_induction (P := fun d => ∀ other, d.Current other)
      (fun _ _ hd other => (hd other).switchOn) _ hrefreshed
  · exact hrefreshed

theorem activeDeps_of_autoenabled {p : Parameter} (htype : p.type = .autoenabled) (value : String) :
    ({ p with value } : Parameter).activeDeps = p.activeDeps := by
  simp [Parameter.activeDeps, Parameter.isSet, htype]

/-- Parameters that follow a module require nothing, whatever they show. -/
theorem effectiveDeps_modifyHeader_withAutoenabled (c : Catalog) (path value name : String) :
    (c.modifyHeader path (withAutoenabled value)).effectiveDeps name = c.effectiveDeps name := by
  refine effectiveDeps_modifyHeader fun _ k _ _ _ => flatMap_activeDeps_mapParams fun p _ => ?_
  split
  · next htype => exact activeDeps_of_autoenabled htype _
  · rfl

theorem current_syncAutoenabled (hc : ∀ name, c.Current name) :
    ∀ name, c.syncAutoenabled.2.Current name := by
  refine syncAutoenabled_induction (P := fun d => ∀ name, d.Current name)
    (fun d path value hd name => (hd name).congr rfl ?_) hc
  exact bareFiles_congr (fun _ => rfl) rfl fun _ =>
    effectiveDeps_modifyHeader_withAutoenabled d path value name

end Catalog

/-- Whether an operation takes values over from a copy of a header. -/
def Operation.takesCopy : Operation → Bool
  | .applyUserConfiguration .. => true
  | .select _ | .unselect _ | .release _ | .setParameter .. | .zeroParameter _ | .syncAutoenabled
  | .applyTo _ => false

namespace Catalog

variable {c d : Catalog}

theorem current_step (hbuilt : c.IsBuilt) (hc : ∀ name, c.Current name) {op : Operation}
    (hop : op.takesCopy = false) : ∀ name, (c.step op).Current name := by
  refine (step_induction (P := fun d => d.IsBuilt ∧ ∀ name, d.Current name) ?_ ?_ ?_ ?_ ?_ ?_
    ⟨hbuilt, hc⟩).2
  · exact fun _ _ hd => ⟨hd.1.congr rfl, fun name => (hd.2 name).congr rfl rfl⟩
  · exact fun c name hd => ⟨hd.1.congr (declared_switchOn c name), fun other => (hd.2 other).switchOn⟩
  · exact fun c name hd => ⟨hd.1.congr (declared_switchOff c name), fun other => (hd.2 other).switchOff⟩
  · exact fun _ _ _ _ _ _ hd h =>
      ⟨hd.1.congr (declared_setParameter h), current_setParameter hd.1 hd.2 h⟩
  · exact fun c hd => ⟨hd.1.congr (declared_syncAutoenabled c), current_syncAutoenabled hd.2⟩
  · rintro configuration text rfl
    cases hop

theorem current_run (hbuilt : c.IsBuilt) (hc : ∀ name, c.Current name) {ops : List Operation}
    (hops : ∀ op ∈ ops, op.takesCopy = false) : ∀ name, (c.run ops).Current name :=
  (run_induction (P := fun d => d.IsBuilt ∧ ∀ name, d.Current name) ops
    (fun _ op ho hd => ⟨hd.1.step op, current_step hd.1 hd.2 (hops op ho)⟩) ⟨hbuilt, hc⟩).2

/-- While nothing is enabled, copies of headers can be taken over. -/
theorem current_copies_build (sourceRoot : String) (modules : List Module) (headers : List Header)
    (lists : List ValueList) (copies : List (String × String)) (name : String) :
    ((build sourceRoot modules headers lists).run
      (copies.map fun e => .applyUserConfiguration e.1 e.2)).Current name := by
  let fresh := build sourceRoot modules headers lists
  let Untouched (d : Catalog) : Prop :=
    d.modules = fresh.modules ∧ d.contributions = fresh.contributions
  have hsame : Untouched (fresh.run (copies.map fun e => .applyUserConfiguration e.1 e.2)) := by
    refine run_induction _ (fun d op hop hd => ?_) ⟨rfl, rfl⟩
    obtain ⟨e, -, rfl⟩ := List.mem_map.1 hop
    exact step_applyUserConfiguration_induction (P := Untouched) hd fun _ _ => hd
  have hoff : fresh.isEnabled name = false := isEnabled_build sourceRoot modules headers lists name
  have hoff' : (fresh.run (copies.map fun e => .applyUserConfiguration e.1 e.2)).isEnabled name
      = false := by
    rw [← hoff, isEnabled, isEnabled, module?, module?, hsame.1]
  unfold Current bareFiles
  rw [hsame.2, hoff']
  rfl

/-! ## Equal states -/

/-- In states of one tree, modules can only differ in whether they are enabled. -/
theorem modules_eq_of_isEnabled (hdecl : c.declared = d.declared)
    (henabled : ∀ name, c.isEnabled name = d.isEnabled name) : c.modules = d.modules := by
  refine NameMap.ext_get? fun name => ?_
  have hname := henabled name
  cases hm : c.modules.get? name with
  | none => exact (module?_eq_none hdecl hm).symm
  | some m =>
      obtain ⟨m', hm', heq⟩ := exists_module? hdecl hm
      have hm'' : d.modules.get? name = some m' := hm'
      simp only [isEnabled, module?, hm, hm'', Option.any_some] at hname
      rw [hm'']
      cases m
      cases m'
      simp_all [Module.declared]

/-- A state is made of its graph, what is enabled and asked for, and its contributions: balanced counts
follow from those. -/
theorem eq_of_state (hgraph : SameGraph c d) (henabled : ∀ name, c.isEnabled name = d.isEnabled name)
    (hexplicit : c.explicit = d.explicit) (hcontributions : c.contributions = d.contributions)
    (hc : c.Balanced) (hd : d.Balanced) : c = d := by
  have hmodules := modules_eq_of_isEnabled hgraph.declared henabled
  have hrefs : c.fileRefs = d.fileRefs := by
    refine hc.unique (Counts.congr hd fun file => ?_)
    rw [contributed, contributed, hcontributions]
  have hroot : c.sourceRoot = d.sourceRoot := congrArg (·.sourceRoot) hgraph.declared
  have hindex := index_congr hgraph.declared
  have hlists := lists_congr hgraph.declared
  have hheaders := hgraph.headers
  cases c
  cases d
  simp_all

/-! ## Accounts -/

/-- Whether the counts and the contributions are those that the enabled modules call for. -/
structure Accounted (c : Catalog) : Prop where
  /-- A bare file counts as often as the enabled modules depend on it. -/
  files : ∀ file, c.isModule file = false →
    c.fileRefCount file = (c.enabledModules.map fun m => (c.effectiveDeps m.name).count file).sum
  modules : ∀ name, c.isModule name = true → c.fileRefs.get? name = none
  positive : ∀ file, c.fileRefs.get? file ≠ some 0
  /-- An enabled module contributes what it depends on that is no module, if there is any. -/
  enabled : ∀ name, c.isEnabled name = true →
    c.contributions.get? name = contribution? ((c.effectiveDeps name).filter (!c.isModule ·))
  disabled : ∀ name, c.isEnabled name = false → c.contributions.get? name = none

/-- What current contributions come to. -/
theorem contributed_of_current (hbuilt : c.IsBuilt) (hc : ∀ name, c.Current name) (file : String) :
    c.contributed file = if c.isModule file then 0
      else (c.enabledModules.map fun m => (c.effectiveDeps m.name).count file).sum := by
  have hmodules : c.contributed file
      = c.modules.total fun m => if m.enabled then
          ((c.effectiveDeps m.name).filter (!c.isModule ·)).count file else 0 := by
    refine NameMap.total_congr fun name => ?_
    rw [hc name, count_contribution?, bareFiles]
    cases hm : c.modules.get? name with
    | none => simp [isEnabled, module?, hm]
    | some m =>
        have hname : m.name = name := hbuilt.name_eq hm
        simp only [isEnabled, module?, hm, Option.any_some, Option.elim_some, hname]
        split <;> rfl
  have hsum : ∀ (count : Module → Nat) (ms : List Module),
      (ms.map fun m => if m.enabled then count m else 0).sum
        = ((ms.filter (·.enabled)).map count).sum := by
    intro count ms
    induction ms with
    | nil => rfl
    | cons m ms ih => cases he : m.enabled <;> simp [he, ih]
  rw [hmodules, NameMap.total, hsum, ← enabledModules]
  split
  · next hmod =>
    refine List.sum_eq_zero fun n hn => ?_
    obtain ⟨m, -, rfl⟩ := List.mem_map.1 hn
    exact List.count_eq_zero_of_not_mem (by simp [hmod])
  · next hmod =>
    refine congrArg List.sum (List.map_congr_left fun m _ => ?_)
    exact List.count_filter (by simpa using hmod)

theorem current_iff {name : String} :
    c.Current name
      ↔ (c.isEnabled name = true →
          c.contributions.get? name = contribution? ((c.effectiveDeps name).filter (!c.isModule ·)))
        ∧ (c.isEnabled name = false → c.contributions.get? name = none) := by
  unfold Current bareFiles
  cases c.isEnabled name <;> simp [contribution?]

/-- A catalogue is accounted for when its counts are in balance and its contributions current. -/
theorem accounted_iff (hbuilt : c.IsBuilt) :
    c.Accounted ↔ c.Balanced ∧ ∀ name, c.Current name := by
  constructor
  · intro h
    have hcurrent : ∀ name, c.Current name :=
      fun name => current_iff.2 ⟨h.enabled name, h.disabled name⟩
    refine ⟨fun file => ?_, hcurrent⟩
    rw [contributed_of_current hbuilt hcurrent]
    cases hmod : c.isModule file with
    | true => simp [h.modules file hmod]
    | false =>
        have hpositive := h.positive file
        simp only [Bool.false_eq_true, if_false]
        rw [← h.files file hmod, fileRefCount]
        cases hget : c.fileRefs.get? file with
        | none => rfl
        | some n =>
            have hn : n ≠ 0 := fun hn => hpositive (hn ▸ hget)
            simp [hn]
  · rintro ⟨hbalanced, hcurrent⟩
    have hcount := contributed_of_current hbuilt hcurrent
    refine ⟨fun file hmod => ?_, fun name hmod => ?_, fun file hzero => ?_,
      fun name => (current_iff.1 (hcurrent name)).1, fun name => (current_iff.1 (hcurrent name)).2⟩
    · have hfile := hcount file
      rw [hmod, if_neg (by simp)] at hfile
      rw [← hfile, fileRefCount, hbalanced file]
      split <;> simp_all
    · rw [hbalanced name, hcount name, hmod]
      rfl
    · rw [hbalanced file] at hzero
      split at hzero
      · cases hzero
      · next hne => exact hne (Option.some.inj hzero)

/-- Whatever is built, whatever copies of headers are taken over before anything is enabled, and
whatever is done from then on, in whatever order and successfully or not: each bare file counts as
often as the enabled modules depend on it, and each enabled module contributes the bare files that it
depends on. -/
theorem accounted_run_build (sourceRoot : String) (modules : List Module) (headers : List Header)
    (lists : List ValueList) (copies : List (String × String)) (ops : List Operation)
    (hops : ∀ op ∈ ops, op.takesCopy = false) :
    (((build sourceRoot modules headers lists).run
      (copies.map fun e => .applyUserConfiguration e.1 e.2)).run ops).Accounted := by
  have hbuilt := (isBuilt_build sourceRoot modules headers lists).run
    (copies.map fun e => .applyUserConfiguration e.1 e.2)
  have hbalanced := (balanced_build sourceRoot modules headers lists).run
    (copies.map fun e => .applyUserConfiguration e.1 e.2)
  refine (accounted_iff (hbuilt.run ops)).2 ⟨hbalanced.run ops, ?_⟩
  exact current_run hbuilt (current_copies_build sourceRoot modules headers lists copies) hops

/-- A module that depends on some names. -/
def moduleOn (name : String) (depends : List String) (configuration : Option String) : Module where
  name
  depends
  configuration
  category := ""
  hw := []
  enabled := false
  constants := .empty
  description := ""
  supports := none
  harvard := none
  definedIn := ""

/-- A flag that requires some names. -/
def flagOn (name : String) (conditionalDeps : List String) : Parameter where
  name
  value := "0"
  type := .boolean
  min := none
  max := none
  long := false
  unsigned := false
  valueList := none
  conditionalDeps
  supports := none
  brief := ""
  description := ""
  extra := .empty
  span := ⟨0, 0⟩

/-- Two modules that are bound to one header, and what they depend on. -/
def busModules : List Module :=
  [moduleOn "spi" ["bus.c", "dma"] (some "cfg_bus.h"), moduleOn "uart" ["bus.c"] (some "cfg_bus.h"),
    moduleOn "dma" ["dma.c"] none, moduleOn "irq" ["irq.c", "bus.c"] none]

/-- A header with a flag that requires a file and a module. -/
def busHeader : Header :=
  ⟨"cfg_bus.h", [flagOn "CONFIG_FAST" ["fast.c", "irq"]], by simp, ""⟩

/-- Values are taken over first; then both owners are selected, the flag is set and cleared, and
unselecting `dma` takes `spi` with it. -/
theorem accounted_busModules :
    (∀ op ∈ [.select "spi", .select "uart", .setParameter "cfg_bus.h" "CONFIG_FAST" "on",
        .zeroParameter ⟨"uart", "cfg_bus.h", "CONFIG_FAST"⟩, Operation.unselect "dma"],
        op.takesCopy = false)
      ∧ (((build "" busModules [busHeader] []).run
          ([("cfg_bus.h", "/// fast\n#define CONFIG_FAST 1\n")].map fun e =>
            .applyUserConfiguration e.1 e.2)).run
          [.select "spi", .select "uart", .setParameter "cfg_bus.h" "CONFIG_FAST" "on",
            .zeroParameter ⟨"uart", "cfg_bus.h", "CONFIG_FAST"⟩, .unselect "dma"]).Accounted := by
  have hops : ∀ op ∈ [.select "spi", .select "uart", .setParameter "cfg_bus.h" "CONFIG_FAST" "on",
      .zeroParameter ⟨"uart", "cfg_bus.h", "CONFIG_FAST"⟩, Operation.unselect "dma"],
      op.takesCopy = false := by
    simp [Operation.takesCopy]
  exact ⟨hops, accounted_run_build "" busModules [busHeader] [] _ _ hops⟩

end Catalog

end Configurator
