import Configurator.Proofs.Catalog.References
import Configurator.Proofs.Project.Restoration

/-!
# States that stay closed

Flags change what modules depend on while they are enabled. As long as nothing is disabled, whatever an
enabled module comes to depend on is enabled as well, so a closed catalogue stays closed
(`closed_run_copies_build`). Selecting keeps it closed because the walk follows what it adds. A new
value adds to the dependencies of enabled modules only if it sets a flag, and then the walk starts from
what the flag requires; where nothing follows from the value, no enabled module depends on anything but
what it depended on before.
-/

namespace Configurator

/-- Whether an operation disables nothing and goes by the values that the catalogue has. -/
def Operation.onlyEnables : Operation → Bool
  | .select _ | .setParameter .. | .zeroParameter _ | .syncAutoenabled | .applyTo _ => true
  | .unselect _ | .release _ | .applyUserConfiguration .. => false

namespace Catalog

variable {c d : Catalog} {configuration name value : String}

theorem Closed.congr (hc : c.Closed) (hmodules : d.modules = c.modules)
    (hdeps : ∀ user, c.isEnabled user = true →
      ∀ dep ∈ d.effectiveDeps user, dep ∈ c.effectiveDeps user) : d.Closed := by
  have henabled : ∀ n, d.isEnabled n = c.isEnabled n := fun n => by
    simp only [isEnabled, module?, hmodules]
  intro user huser dep hdep hmod
  rw [henabled] at huser ⊢
  simp only [isModule, hmodules] at hmod
  exact hc user huser dep (hdeps user huser dep hdep) hmod

/-! ## New values -/

/-- What a module depends on under a new value it depended on before, unless the value sets a flag that
requires it. -/
theorem mem_effectiveDeps_of_withParameter {user dep : String} {old new : Parameter}
    (hold : c.parameter configuration name = .ok old) (hdecl : new.declared = old.declared)
    (h : dep ∈ (c.withParameter configuration name new).effectiveDeps user) :
    dep ∈ c.effectiveDeps user ∨ (new.isSet = true ∧ dep ∈ old.conditionalDeps) := by
  have hdeps : new.conditionalDeps = old.conditionalDeps := congrArg (·.conditionalDeps) hdecl
  obtain ⟨m, hm, hlisted | ⟨path, other, p, hpath, hp, hset, hdep⟩⟩ := mem_effectiveDeps_iff.1 h
  · exact .inl (mem_effectiveDeps_iff.2 ⟨m, hm, .inl hlisted⟩)
  · by_cases hsame : (configuration, name) = (path, other)
    · obtain ⟨rfl, rfl⟩ := Prod.mk.inj hsame
      rw [parameter_withParameter_self hold hdecl, Except.ok.injEq] at hp
      subst hp
      exact .inr ⟨hset, hdeps ▸ hdep⟩
    · rw [parameter_withParameter_of_ne hsame] at hp
      exact .inl (mem_effectiveDeps_iff.2 ⟨m, hm, .inr ⟨path, other, p, hpath, hp, hset, hdep⟩⟩)

/-- Where nothing follows from a new value, enabled modules depend on what they depended on. -/
theorem effectiveDeps_of_isQuiet (hbuilt : c.IsBuilt) {user : String} {old new : Parameter}
    (hold : c.parameter configuration name = .ok old) (hdecl : new.declared = old.declared)
    (hquiet : (c.withParameter configuration name new).IsQuiet configuration old new)
    (huser : c.isEnabled user = true) :
    (c.withParameter configuration name new).effectiveDeps user = c.effectiveDeps user := by
  refine effectiveDeps_withParameter hold hdecl ?_
  rcases hquiet with htype | hdeps | howners | hset
  · exact .inr (.inl htype)
  · exact .inr (.inr (.inl hdeps))
  · refine .inl fun m hm hpath => ?_
    obtain ⟨m', hm', hon⟩ := isEnabled_iff.1 huser
    rw [hm, Option.some.injEq] at hm'
    have howner : user ∈ c.owners configuration := (mem_owners hbuilt).2 ⟨m, hm, hm' ▸ hon, hpath⟩
    have hnone : c.owners configuration = [] := howners
    rw [hnone] at howner
    cases howner
  · exact .inr (.inr (.inr hset))

/-- Where the walk starts from what enabled modules came to depend on, it leaves the catalogue
closed. -/
theorem Closed.pull {todo : List String}
    (hc : ∀ user, c.isEnabled user = true → ∀ dep ∈ c.effectiveDeps user,
      c.isModule dep = true → c.isEnabled dep = true ∨ dep ∈ todo) : (c.pull todo).1.Closed := by
  intro user huser dep hdep hmod
  have hgraph := sameGraph_pull c todo
  rw [hgraph.effectiveDeps user] at hdep
  rw [hgraph.isModule dep] at hmod
  rcases (isEnabled_pull c todo user).1 huser with huser | huser
  · rcases hc user huser dep hdep hmod with hon | htodo
    · exact (isEnabled_pull c todo dep).2 (.inl hon)
    · exact isEnabled_pull_of_mem hmod (.inl htodo)
  · exact isEnabled_pull_of_mem hmod (.inr ⟨user, huser, hdep⟩)

/-- Giving a parameter a value leaves a closed catalogue closed. -/
theorem Closed.setParameter (hc : c.Closed) (hbuilt : c.IsBuilt) {change : Change}
    (h : c.setParameter configuration name value = .ok (change, d)) : d.Closed := by
  obtain ⟨old, new, e, hold, hnew, rfl, hd⟩ := setParameter_eq_ok h
  have hdecl := Parameter.declared_accept hnew
  generalize hwith : c.withParameter configuration name new = e at hd
  have hmodules : e.modules = c.modules := hwith ▸ rfl
  have hmem : ∀ {user dep}, dep ∈ e.effectiveDeps user →
      dep ∈ c.effectiveDeps user ∨ (new.isSet = true ∧ dep ∈ old.conditionalDeps) :=
    fun hdep => mem_effectiveDeps_of_withParameter hold hdecl (hwith ▸ hdep)
  have hgraph := sameGraph_refreshAll e (e.owners configuration)
  have hrefreshed : (e.refreshAll (e.owners configuration)).modules = c.modules :=
    (refreshAll_induction (P := fun d => d.modules = e.modules) (fun _ _ hd => hd) _ rfl).trans
      hmodules
  rcases hd with ⟨hquiet, rfl⟩ | ⟨-, -, rfl⟩ | ⟨-, hunset, rfl⟩
  · refine hc.congr hmodules fun user huser dep hdep => ?_
    subst hwith
    rwa [effectiveDeps_of_isQuiet hbuilt hold hdecl hquiet huser] at hdep
  · refine Closed.pull fun user huser dep hdep hmod => ?_
    simp only [isEnabled, module?, isModule, hrefreshed] at huser hmod ⊢
    rw [hgraph.effectiveDeps user] at hdep
    exact (hmem hdep).imp (fun hbefore => hc user huser dep hbefore hmod) (·.2)
  · refine hc.congr hrefreshed fun user _ dep hdep => ?_
    rw [hgraph.effectiveDeps user] at hdep
    refine (hmem hdep).resolve_right fun hset => ?_
    rw [hunset] at hset
    exact Bool.false_ne_true hset.1

/-! ## Operations and runs -/

theorem Closed.syncAutoenabled (hc : c.Closed) : c.syncAutoenabled.2.Closed := by
  refine syncAutoenabled_induction (fun d path value hd => hd.congr rfl fun user _ dep hdep => ?_) hc
  rwa [effectiveDeps_modifyHeader_withAutoenabled] at hdep

/-- Restoring a project leaves a closed catalogue closed. -/
theorem Closed.applyTo (hc : c.Closed) (hbuilt : c.IsBuilt) (p : Project) :
    (p.applyTo c).2.Closed := by
  refine (applyTo_induction (P := fun d => d.IsBuilt ∧ d.Closed) ?_ ?_ ?_ p ⟨hbuilt, hc⟩).2
  · exact fun _ _ _ _ _ _ hd h =>
      ⟨hd.1.congr (declared_setParameter h), hd.2.setParameter hd.1 h⟩
  · intro d name o e hd h
    obtain ⟨-, -, rfl⟩ := select_eq_ok h
    exact ⟨hd.1.congr (declared_enable d name), hd.2.enable name⟩
  · exact fun d names hd => ⟨hd.1.congr rfl, hd.2.congr rfl fun _ _ _ hdep => hdep⟩

/-- Every operation that disables nothing leaves a closed catalogue closed. -/
theorem Closed.step (hc : c.Closed) (hbuilt : c.IsBuilt) {op : Operation}
    (hop : op.onlyEnables = true) : (c.step op).Closed := by
  cases op with
  | select name => exact step_select_induction hc fun _ => hc.enable name
  | setParameter configuration name value =>
      exact step_setParameter_induction hc fun o d h => hc.setParameter hbuilt h
  | zeroParameter r => exact step_setParameter_induction hc fun o d h => hc.setParameter hbuilt h
  | syncAutoenabled => exact hc.syncAutoenabled
  | applyTo p => exact hc.applyTo hbuilt p
  | unselect name => cases hop
  | release names => cases hop
  | applyUserConfiguration configuration text => cases hop

theorem Closed.run (hc : c.Closed) (hbuilt : c.IsBuilt) {ops : List Operation}
    (hops : ∀ op ∈ ops, op.onlyEnables = true) : (c.run ops).Closed :=
  (run_induction (P := fun d => d.IsBuilt ∧ d.Closed) ops
    (fun _ op ho hd => ⟨hd.1.step op, hd.2.step hd.1 (hops op ho)⟩) ⟨hbuilt, hc⟩).2

/-- Taking copies of headers over leaves the modules alone. -/
theorem modules_run_copies (c : Catalog) (copies : List (String × String)) :
    (c.run (copies.map fun e => .applyUserConfiguration e.1 e.2)).modules = c.modules := by
  refine run_induction (P := fun d => d.modules = c.modules) _ (fun d op hop hd => ?_) rfl
  obtain ⟨e, -, rfl⟩ := List.mem_map.1 hop
  exact step_applyUserConfiguration_induction (P := fun d => d.modules = c.modules) hd fun _ _ => hd

theorem idle_run_copies_build (sourceRoot : String) (modules : List Module) (headers : List Header)
    (lists : List ValueList) (copies : List (String × String)) :
    ((build sourceRoot modules headers lists).run
      (copies.map fun e => .applyUserConfiguration e.1 e.2)).Idle := by
  intro name
  rw [isEnabled, module?, modules_run_copies]
  exact isEnabled_build sourceRoot modules headers lists name

/-- Whatever is built, whatever copies of headers are taken over before anything is enabled, and
whatever is done from then on without disabling modules, in whatever order and successfully or not: all
that the enabled modules depend on is enabled, as far as these are modules. -/
theorem closed_run_copies_build (sourceRoot : String) (modules : List Module) (headers : List Header)
    (lists : List ValueList) (copies : List (String × String)) (ops : List Operation)
    (hops : ∀ op ∈ ops, op.onlyEnables = true) :
    (((build sourceRoot modules headers lists).run
      (copies.map fun e => .applyUserConfiguration e.1 e.2)).run ops).Closed := by
  have hbuilt := (isBuilt_build sourceRoot modules headers lists).run
    (copies.map fun e => .applyUserConfiguration e.1 e.2)
  have hidle := idle_run_copies_build sourceRoot modules headers lists copies
  exact hidle.closed.run hbuilt hops

/-- The flag is taken over as set, so that selecting one owner enables what it requires; it is cleared
while both owners are enabled, and set again. -/
theorem closed_run_copies_busModules :
    (∀ op ∈ [.select "uart", .zeroParameter ⟨"uart", "cfg_bus.h", "CONFIG_FAST"⟩, .select "spi",
        .setParameter "cfg_bus.h" "CONFIG_FAST" "on", .syncAutoenabled, Operation.applyTo default],
        op.onlyEnables = true)
      ∧ (((build "" busModules [busHeader] []).run
          ([("cfg_bus.h", "/// fast\n#define CONFIG_FAST 1\n")].map fun e =>
            .applyUserConfiguration e.1 e.2)).run
          [.select "uart", .zeroParameter ⟨"uart", "cfg_bus.h", "CONFIG_FAST"⟩, .select "spi",
            .setParameter "cfg_bus.h" "CONFIG_FAST" "on", .syncAutoenabled,
            .applyTo default]).Closed := by
  have hops : ∀ op ∈ [.select "uart", .zeroParameter ⟨"uart", "cfg_bus.h", "CONFIG_FAST"⟩,
      .select "spi", .setParameter "cfg_bus.h" "CONFIG_FAST" "on", .syncAutoenabled,
      Operation.applyTo default], op.onlyEnables = true := by
    simp [Operation.onlyEnables]
  exact ⟨hops, closed_run_copies_build "" busModules [busHeader] [] _ _ hops⟩

end Catalog

end Configurator
