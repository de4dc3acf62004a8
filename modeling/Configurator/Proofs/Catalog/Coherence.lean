import Configurator.Proofs.Catalog.Enabled

/-!
# Coherent states

In a coherent catalogue each enabled module has all modules that it lists enabled, and only enabled
modules are asked for or contribute bare files. A fresh catalogue is coherent, and every operation
keeps it so (`coherent_run`).

The two walks break the first rule on their way, each in its own manner. Enabling may have listed
modules still to enable, and those are on its list; disabling may have modules left whose listed
module is gone, and those are on its list. So both are proved of catalogues in which the rule has
exceptions (`DependsBut`), and the exceptions go when the list is empty.
-/

namespace Configurator.Catalog

variable {c d : Catalog}

/-! ## The rules -/

/-- Each enabled module has the modules that it lists enabled, exceptions aside. -/
def DependsBut (c : Catalog) (exception : String → String → Prop) : Prop :=
  ∀ name m, c.module? name = some m → m.enabled = true →
    ∀ dep ∈ m.depends, c.isModule dep = true → c.isEnabled dep = true ∨ exception name dep

/-- Only enabled modules are asked for, and only enabled modules contribute bare files. -/
structure ListsEnabled (c : Catalog) : Prop where
  explicit : ∀ name ∈ c.explicit, c.isEnabled name = true
  contributions : ∀ name ∈ c.contributions.keys, c.isEnabled name = true

/-- The rules that operations keep. -/
structure Coherent (c : Catalog) : Prop where
  depends : ∀ name m, c.module? name = some m → m.enabled = true →
    ∀ dep ∈ m.depends, c.isModule dep = true → c.isEnabled dep = true
  explicit : ∀ name ∈ c.explicit, c.isEnabled name = true
  contributions : ∀ name ∈ c.contributions.keys, c.isEnabled name = true

theorem Coherent.dependsBut (hc : c.Coherent) (exception : String → String → Prop) :
    c.DependsBut exception :=
  fun name m hm he dep hdep hmod => .inl (hc.depends name m hm he dep hdep hmod)

theorem Coherent.listsEnabled (hc : c.Coherent) : c.ListsEnabled :=
  ⟨hc.explicit, hc.contributions⟩

theorem coherent_of (hdep : c.DependsBut fun _ _ => False) (hlists : c.ListsEnabled) :
    c.Coherent where
  depends name m hm he dep hmem hmod := (hdep name m hm he dep hmem hmod).resolve_right id
  explicit := hlists.explicit
  contributions := hlists.contributions

/-! ## Lists of enabled modules -/

/-- Refreshing a module lists it only if it is enabled. -/
theorem mem_keys_refreshContribution {name other : String}
    (h : other ∈ (c.refreshContribution name).contributions.keys) :
    (other = name ∧ c.isEnabled name = true) ∨ (other ≠ name ∧ other ∈ c.contributions.keys) := by
  rw [NameMap.mem_keys_iff] at h
  simp only [refreshContribution] at h
  split at h
  · rw [NameMap.get?_erase] at h
    split at h
    · simp at h
    · next hne => exact .inr ⟨Ne.symm hne, NameMap.mem_keys_iff.2 h⟩
  · next hfiles =>
    rw [NameMap.get?_insert] at h
    split at h
    · next heq =>
      refine .inl ⟨heq.symm, ?_⟩
      by_contra he
      simp [bareFiles, he] at hfiles
    · next hne => exact .inr ⟨Ne.symm hne, NameMap.mem_keys_iff.2 h⟩

theorem ListsEnabled.refreshContribution (hc : c.ListsEnabled) (name : String) :
    (c.refreshContribution name).ListsEnabled where
  explicit := hc.explicit
  contributions other hother := by
    rcases mem_keys_refreshContribution hother with ⟨rfl, he⟩ | ⟨-, hother⟩
    · exact he
    · exact hc.contributions other hother

theorem ListsEnabled.switchOn (hc : c.ListsEnabled) (name : String) :
    (c.switchOn name).ListsEnabled where
  explicit other hother := isEnabled_switchOn_of_isEnabled (hc.explicit other hother)
  contributions other hother := by
    rcases mem_keys_refreshContribution hother with ⟨rfl, he⟩ | ⟨-, hother⟩
    · exact he
    · exact isEnabled_switchOn_of_isEnabled (hc.contributions other hother)

theorem ListsEnabled.switchOff (hc : c.ListsEnabled) (name : String) :
    (c.switchOff name).ListsEnabled where
  explicit other hother := by
    obtain ⟨hne, hmem⟩ := NameSet.mem_erase.1 hother
    rw [isEnabled_switchOff, if_neg hne]
    exact hc.explicit other hmem
  contributions other hother := by
    rcases mem_keys_refreshContribution hother with ⟨rfl, he⟩ | ⟨hne, hmem⟩
    · exact he
    · rw [isEnabled_switchOff, if_neg hne]
      exact hc.contributions other hmem

theorem ListsEnabled.pull (hc : c.ListsEnabled) (todo : List String) :
    (c.pull todo).1.ListsEnabled :=
  pull_induction (fun _ name hd => hd.switchOn name) todo hc

theorem ListsEnabled.cascade (hc : c.ListsEnabled) (todo : List String) :
    (c.cascade todo).1.ListsEnabled :=
  cascade_induction (fun _ name hd => hd.switchOff name) todo hc

/-! ## Enabling -/

/-- Enabling a module leaves what it lists as exceptions, among what it depends on. -/
theorem DependsBut.switchOn {name : String} {exception : String → String → Prop}
    (hc : c.DependsBut exception) :
    (c.switchOn name).DependsBut fun user dep =>
      (exception user dep ∧ dep ≠ name)
        ∨ (user = name ∧ dep ∈ (c.switchOn name).effectiveDeps name) := by
  intro user m hm he dep hdep hmod
  have hdeps := (sameGraph_switchOn c name).effectiveDeps name
  rw [isModule_switchOn] at hmod
  rw [module?_switchOn] at hm
  by_cases huser : user = name
  · subst huser
    obtain ⟨m', hm', rfl⟩ := Option.map_eq_some_iff.1 (by rwa [if_pos rfl] at hm)
    exact .inr (.inr ⟨rfl, by rw [hdeps]; exact mem_effectiveDeps.2 ⟨m', hm', .inl hdep⟩⟩)
  · rw [if_neg huser] at hm
    rcases hc user m hm he dep hdep hmod with hon | hexc
    · exact .inl (isEnabled_switchOn_of_isEnabled hon)
    · by_cases hname : dep = name
      · exact .inl (by rw [isEnabled_switchOn, if_pos hname]; exact hmod)
      · exact .inr (.inl ⟨hexc, hname⟩)

theorem DependsBut.mono {exception exception' : String → String → Prop}
    (hc : c.DependsBut exception)
    (h : ∀ user dep, c.isModule dep = true → c.isEnabled dep = false → exception user dep →
      exception' user dep) : c.DependsBut exception' := by
  intro user m hm he dep hdep hmod
  cases hon : c.isEnabled dep with
  | true => exact .inl rfl
  | false =>
      rcases hc user m hm he dep hdep hmod with hon' | hexc
      · rw [hon] at hon'
        cases hon'
      · exact .inr (h user dep hmod hon hexc)

/-- The walk ends without the exceptions that stand on its list. -/
theorem DependsBut.pull {todo : List String} (hc : c.DependsBut fun _ dep => dep ∈ todo) :
    (c.pull todo).1.DependsBut fun _ _ => False := by
  fun_induction Catalog.pull c todo with
  | case1 c => simpa using hc
  | case2 c dep rest _ c' after names heq ih =>
      rw [heq] at ih
      refine ih (hc.switchOn.mono fun user other _ _ hexc => ?_)
      rcases hexc with ⟨hother, hne⟩ | ⟨-, hother⟩
      · exact List.mem_append_right _ (List.mem_of_ne_of_mem hne hother)
      · exact List.mem_append_left _ hother
  | case3 c dep rest hdep ih =>
      refine ih (hc.mono fun user other hmod hoff hother => ?_)
      rcases List.mem_cons.1 hother with rfl | hother
      · exact absurd ⟨hmod, hoff⟩ hdep
      · exact hother

theorem Coherent.pull (hc : c.Coherent) (todo : List String) : (c.pull todo).1.Coherent :=
  coherent_of (hc.dependsBut _).pull (hc.listsEnabled.pull todo)

theorem Coherent.enable (hc : c.Coherent) {name : String} (hname : c.isModule name = true) :
    (c.enable name).1.Coherent := by
  have hdep : (c.askFor name).DependsBut fun _ _ => False := hc.dependsBut _
  have hlists : ((c.askFor name).switchOn name).ListsEnabled := by
    refine ⟨fun other hother => ?_, fun other hother => ?_⟩
    · rw [isEnabled_switchOn]
      rcases NameSet.mem_insert.1 hother with rfl | hother
      · rwa [if_pos rfl]
      · split
        · exact isModule_of_isEnabled (hc.explicit other hother)
        · exact hc.explicit other hother
    · rcases mem_keys_refreshContribution hother with ⟨rfl, he⟩ | ⟨-, hother⟩
      · exact he
      · exact isEnabled_switchOn_of_isEnabled (hc.contributions other hother)
  refine coherent_of (DependsBut.pull ?_) (hlists.pull _)
  refine hdep.switchOn.mono ?_
  intro user dep _ _ hexc
  rcases hexc with ⟨hfalse, -⟩ | ⟨-, hmem⟩
  · exact hfalse.elim
  · exact hmem

/-! ## Disabling -/

/-- Disabling a module leaves the modules that list it as exceptions, among its dependents. -/
theorem DependsBut.switchOff {name : String} {exception : String → String → Prop}
    (hbuilt : c.IsBuilt) (hc : c.DependsBut exception) :
    (c.switchOff name).DependsBut fun user dep =>
      (exception user dep ∧ user ≠ name) ∨ user ∈ (c.switchOff name).hardDependents name := by
  intro user m hm he dep hdep hmod
  rw [isModule_switchOff] at hmod
  rw [module?_switchOff] at hm
  by_cases huser : user = name
  · rw [if_pos huser] at hm
    obtain ⟨m', -, rfl⟩ := Option.map_eq_some_iff.1 hm
    cases he
  · rw [if_neg huser] at hm
    by_cases hname : dep = name
    · subst hname
      rw [hardDependents_congr (declared_switchOff c dep)]
      exact .inr (.inr (hbuilt.mem_hardDependents.2 ⟨m, hm, hdep⟩))
    · rw [isEnabled_switchOff, if_neg hname]
      rcases hc user m hm he dep hdep hmod with hon | hexc
      · exact .inl hon
      · exact .inr (.inl ⟨hexc, huser⟩)

theorem DependsBut.cascade {todo : List String} (hbuilt : c.IsBuilt)
    (hc : c.DependsBut fun user _ => user ∈ todo) :
    (c.cascade todo).1.DependsBut fun _ _ => False := by
  fun_induction Catalog.cascade c todo with
  | case1 c => simpa using hc
  | case2 c name rest _ c' after names heq ih =>
      rw [heq] at ih
      refine ih (hbuilt.congr (declared_switchOff c name))
        ((hc.switchOff hbuilt).mono fun user dep _ _ hexc => ?_)
      rcases hexc with ⟨huser, hne⟩ | huser
      · exact List.mem_append_right _ (List.mem_of_ne_of_mem hne huser)
      · exact List.mem_append_left _ huser
  | case3 c name rest hname ih =>
      refine ih hbuilt ?_
      intro user m hm he dep hdep hmod
      rcases hc user m hm he dep hdep hmod with hon | huser
      · exact .inl hon
      · rcases List.mem_cons.1 huser with rfl | huser
        · exact absurd (isEnabled_iff.2 ⟨m, hm, he⟩) hname
        · exact .inr huser

theorem Coherent.withdraw (hc : c.Coherent) (hbuilt : c.IsBuilt) (name : String) :
    (c.withdraw name).2.Coherent := by
  have hdep : (c.switchOff name).DependsBut fun user _ =>
      user ∈ (c.switchOff name).hardDependents name := by
    refine ((hc.dependsBut fun _ _ => False).switchOff hbuilt).mono ?_
    intro user dep _ _ hexc
    rcases hexc with ⟨hfalse, -⟩ | hmem
    · exact hfalse.elim
    · exact hmem
  exact coherent_of (hdep.cascade (hbuilt.congr (declared_switchOff c name)))
    ((hc.listsEnabled.switchOff name).cascade _)

/-! ## Operations and runs -/

/-- Changing headers only keeps a coherent state. -/
theorem Coherent.congr (hc : c.Coherent) (hmodules : d.modules = c.modules)
    (hexplicit : ∀ name ∈ d.explicit, name ∈ c.explicit)
    (hcontributions : d.contributions = c.contributions) : d.Coherent := by
  have henabled : ∀ name, d.isEnabled name = c.isEnabled name := fun name => by
    simp only [isEnabled, module?, hmodules]
  refine ⟨fun name m hm he dep hdep hmod => ?_, fun name hname => ?_, fun name hname => ?_⟩
  · rw [henabled]
    simp only [module?, isModule, hmodules] at hm hmod
    exact hc.depends name m hm he dep hdep hmod
  · rw [henabled]
    exact hc.explicit name (hexplicit name hname)
  · rw [henabled]
    exact hc.contributions name (hcontributions ▸ hname)

theorem Coherent.refreshContribution (hc : c.Coherent) (name : String) :
    (c.refreshContribution name).Coherent where
  depends := hc.depends
  explicit := hc.explicit
  contributions := (hc.listsEnabled.refreshContribution name).contributions

theorem Coherent.refreshAll (hc : c.Coherent) (names : List String) :
    (c.refreshAll names).Coherent :=
  refreshAll_induction (fun _ name hd => hd.refreshContribution name) names hc

theorem Coherent.setParameter (hc : c.Coherent) {configuration name value : String}
    {change : Change} (h : c.setParameter configuration name value = .ok (change, d)) :
    d.Coherent := by
  obtain ⟨old, new, e, -, -, rfl, hd⟩ := setParameter_eq_ok h
  have hwith : (c.withParameter configuration name new).Coherent :=
    hc.congr rfl (fun _ h => h) rfl
  rcases hd with ⟨-, rfl⟩ | ⟨-, -, rfl⟩ | ⟨-, -, rfl⟩
  · exact hwith
  · exact (hwith.refreshAll _).pull _
  · exact hwith.refreshAll _

theorem Coherent.syncAutoenabled (hc : c.Coherent) : c.syncAutoenabled.2.Coherent :=
  syncAutoenabled_induction (fun _ _ _ hd => hd.congr rfl (fun _ h => h) rfl) hc

/-- Every operation keeps a coherent state. -/
theorem Coherent.step (hc : c.Coherent) (hbuilt : c.IsBuilt) (op : Operation) :
    (c.step op).Coherent := by
  cases op with
  | select name => exact step_select_induction hc fun hname => hc.enable hname
  | unselect name => exact step_unselect_induction hc fun _ => hc.withdraw hbuilt name
  | release names =>
      refine (release_induction (P := fun d => d.Coherent ∧ d.IsBuilt) ?_ names ⟨hc, hbuilt⟩).1
      rintro d name - ⟨hd, hdbuilt⟩
      exact ⟨hd.withdraw hdbuilt name, hdbuilt.congr (declared_withdraw d name)⟩
  | setParameter configuration name value =>
      exact step_setParameter_induction hc fun o d h => hc.setParameter h
  | zeroParameter r => exact step_setParameter_induction hc fun o d h => hc.setParameter h
  | syncAutoenabled => exact hc.syncAutoenabled
  | applyUserConfiguration configuration text =>
      exact step_applyUserConfiguration_induction hc fun copy _ => hc.congr rfl (fun _ h => h) rfl
  | applyTo p =>
      refine applyTo_induction ?_ ?_ ?_ p hc
      · intro d configuration name value o e hd h
        exact hd.setParameter h
      · intro d name o e hd h
        obtain ⟨hname, -, rfl⟩ := select_eq_ok h
        exact hd.enable hname
      · intro d names hd
        refine hd.congr rfl (fun name hname => ?_) rfl
        exact NameSet.mem_toList.1 (List.mem_filter.1 (NameSet.mem_ofList.1 hname)).1

/-- A fresh catalogue has nothing enabled. -/
theorem isEnabled_build (sourceRoot : String) (modules : List Module) (headers : List Header)
    (lists : List ValueList) (name : String) :
    (build sourceRoot modules headers lists).isEnabled name = false := by
  by_contra h
  obtain ⟨m, hm, he⟩ := isEnabled_iff.1 (by simpa using h)
  rw [(collectModules_named hm).2] at he
  cases he

theorem coherent_build (sourceRoot : String) (modules : List Module) (headers : List Header)
    (lists : List ValueList) : (build sourceRoot modules headers lists).Coherent := by
  refine ⟨fun name m hm he => ?_, fun name h => ?_, fun name h => ?_⟩
  · have hon := isEnabled_iff.2 ⟨m, hm, he⟩
    rw [isEnabled_build] at hon
    cases hon
  · exact absurd h (NameSet.not_mem_empty name)
  · exact absurd h (by simp [build, NameMap.keys, NameMap.empty])

theorem Coherent.run (hc : c.Coherent) (hbuilt : c.IsBuilt) (ops : List Operation) :
    (c.run ops).Coherent :=
  (run_induction (P := fun d => d.Coherent ∧ d.IsBuilt) ops
    (fun _ op _ hd => ⟨hd.1.step hd.2 op, hd.2.step op⟩) ⟨hc, hbuilt⟩).1

/-- Whatever is built, and whatever is done to it in whatever order, successfully or not: the state is
coherent. -/
theorem coherent_run_build (sourceRoot : String) (modules : List Module) (headers : List Header)
    (lists : List ValueList) (ops : List Operation) :
    ((build sourceRoot modules headers lists).run ops).Coherent :=
  (coherent_build sourceRoot modules headers lists).run (isBuilt_build ..) ops

end Configurator.Catalog
