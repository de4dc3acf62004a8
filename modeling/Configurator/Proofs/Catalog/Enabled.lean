import Configurator.Proofs.Catalog.Index

/-!
# Which modules are enabled

What the single steps and the two walks do to the modules that are enabled. Enabling adds exactly the
names that it reports (`isEnabled_pull`) and disabling removes exactly those (`isEnabled_cascade`). As
long as headers stay, what modules depend on stays as well (`SameGraph`), so that facts about the walk
can be stated with the dependencies before it.
-/

namespace Configurator.Catalog

variable {c d : Catalog}

/-! ## Single steps -/

theorem module?_setEnabled (c : Catalog) (name other : String) (enabled : Bool) :
    (c.setEnabled name enabled).module? other
      = if other = name then (c.module? other).map fun m => { m with enabled }
        else c.module? other :=
  NameMap.get?_modify _ _ _ _

theorem module?_switchOn (c : Catalog) (name other : String) :
    (c.switchOn name).module? other
      = if other = name then (c.module? other).map fun m => { m with enabled := true }
        else c.module? other :=
  module?_setEnabled c name other true

theorem module?_switchOff (c : Catalog) (name other : String) :
    (c.switchOff name).module? other
      = if other = name then (c.module? other).map fun m => { m with enabled := false }
        else c.module? other :=
  module?_setEnabled c name other false

theorem isModule_switchOn (c : Catalog) (name other : String) :
    (c.switchOn name).isModule other = c.isModule other :=
  isModule_congr (declared_switchOn c name) other

theorem isModule_switchOff (c : Catalog) (name other : String) :
    (c.switchOff name).isModule other = c.isModule other :=
  isModule_congr (declared_switchOff c name) other

theorem isEnabled_switchOn (c : Catalog) (name other : String) :
    (c.switchOn name).isEnabled other
      = if other = name then c.isModule other else c.isEnabled other := by
  rw [isEnabled, module?_switchOn]
  split
  · rw [Option.any_map]
    cases hm : c.module? other <;> simp_all [isModule, NameMap.contains, module?]
  · rfl

theorem isEnabled_switchOff (c : Catalog) (name other : String) :
    (c.switchOff name).isEnabled other = if other = name then false else c.isEnabled other := by
  rw [isEnabled, module?_switchOff]
  split
  · rw [Option.any_map]
    cases c.module? other <;> rfl
  · rfl

theorem isEnabled_switchOn_of_isEnabled {name other : String} (h : c.isEnabled other = true) :
    (c.switchOn name).isEnabled other = true := by
  rw [isEnabled_switchOn]
  split
  · exact isModule_of_isEnabled h
  · exact h

/-! ## Unchanged graphs -/

/-- Two states of one tree with the same headers, values included: their modules depend on the same
names. -/
structure SameGraph (c d : Catalog) : Prop where
  declared : c.declared = d.declared
  headers : c.headers = d.headers

namespace SameGraph

theorem refl (c : Catalog) : SameGraph c c :=
  ⟨rfl, rfl⟩

theorem trans {e : Catalog} (h : SameGraph c d) (h' : SameGraph d e) : SameGraph c e :=
  ⟨h.declared.trans h'.declared, h.headers.trans h'.headers⟩

theorem symm (h : SameGraph c d) : SameGraph d c :=
  ⟨h.declared.symm, h.headers.symm⟩

theorem isModule (h : SameGraph c d) (name : String) : c.isModule name = d.isModule name :=
  isModule_congr h.declared name

theorem moduleHeader? (h : SameGraph c d) (name : String) :
    c.moduleHeader? name = d.moduleHeader? name := by
  unfold Catalog.moduleHeader?
  rw [h.headers]
  cases hc : c.module? name with
  | some m =>
      obtain ⟨m', hm', heq⟩ := exists_module? h.declared hc
      simp only [hm', Option.bind_some, configuration_eq heq]
  | none => rw [module?_eq_none h.declared hc]

theorem effectiveDeps (h : SameGraph c d) (name : String) :
    c.effectiveDeps name = d.effectiveDeps name := by
  unfold Catalog.effectiveDeps conditionalDeps
  rw [h.moduleHeader? name]
  cases hc : c.module? name with
  | some m =>
      obtain ⟨m', hm', heq⟩ := exists_module? h.declared hc
      simp only [hm', depends_eq heq]
  | none => rw [module?_eq_none h.declared hc]

end SameGraph

theorem sameGraph_switchOn (c : Catalog) (name : String) : SameGraph (c.switchOn name) c :=
  ⟨declared_switchOn c name, rfl⟩

theorem sameGraph_switchOff (c : Catalog) (name : String) : SameGraph (c.switchOff name) c :=
  ⟨declared_switchOff c name, rfl⟩

theorem sameGraph_refreshAll (c : Catalog) (names : List String) :
    SameGraph (c.refreshAll names) c :=
  ⟨declared_refreshAll c names,
    refreshAll_induction (P := fun d => d.headers = c.headers) (fun _ _ hd => hd) names rfl⟩

theorem sameGraph_pull (c : Catalog) (todo : List String) : SameGraph (c.pull todo).1 c :=
  pull_induction (P := fun d => SameGraph d c)
    (fun d name hd => (sameGraph_switchOn d name).trans hd) todo (.refl c)

theorem sameGraph_cascade (c : Catalog) (todo : List String) : SameGraph (c.cascade todo).1 c :=
  cascade_induction (P := fun d => SameGraph d c)
    (fun d name hd => (sameGraph_switchOff d name).trans hd) todo (.refl c)

theorem sameGraph_askFor (c : Catalog) (name : String) : SameGraph (c.askFor name) c :=
  ⟨rfl, rfl⟩

theorem sameGraph_switchOn_askFor (c : Catalog) (name : String) :
    SameGraph ((c.askFor name).switchOn name) c :=
  (sameGraph_switchOn _ name).trans (sameGraph_askFor c name)

theorem sameGraph_enable (c : Catalog) (name : String) : SameGraph (c.enable name).1 c :=
  (sameGraph_pull _ _).trans (sameGraph_switchOn_askFor c name)

/-! ## Dependencies -/

theorem mem_addNew {names : List String} {name other : String} :
    other ∈ addNew names name ↔ other ∈ names ∨ other = name := by
  unfold addNew
  split
  · next h =>
    constructor
    · exact .inl
    · rintro (hother | rfl)
      · exact hother
      · exact h
  · simp

theorem mem_foldl_addNew {names more : List String} {name : String} :
    name ∈ more.foldl addNew names ↔ name ∈ names ∨ name ∈ more := by
  induction more generalizing names with
  | nil => simp
  | cons first more ih => rw [List.foldl_cons, ih, mem_addNew, List.mem_cons, or_assoc]

/-- Adding names to a list leaves it in front; behind it comes each other name once. -/
theorem exists_foldl_addNew (names more : List String) :
    ∃ added : List String, more.foldl addNew names = names ++ added ∧ added.Nodup
      ∧ ∀ name, name ∈ added ↔ name ∈ more ∧ name ∉ names := by
  induction more generalizing names with
  | nil => exact ⟨[], by simp⟩
  | cons first more ih =>
      obtain ⟨added, heq, hnodup, hmem⟩ := ih (addNew names first)
      rw [List.foldl_cons, heq]
      by_cases hfirst : first ∈ names
      · rw [addNew, if_pos hfirst] at hmem ⊢
        refine ⟨added, rfl, hnodup, fun name => (hmem name).trans (and_congr_left fun hnot => ?_)⟩
        rw [List.mem_cons, or_iff_right]
        rintro rfl
        exact hnot hfirst
      · rw [addNew, if_neg hfirst] at hmem ⊢
        refine ⟨first :: added, by simp, List.nodup_cons.2 ⟨?_, hnodup⟩, fun name => ?_⟩
        · simp [hmem]
        · by_cases hname : name = first
          · simp [hname, hfirst]
          · simp [hname, hmem]

theorem mem_effectiveDeps {name dep : String} :
    dep ∈ c.effectiveDeps name
      ↔ ∃ m, c.module? name = some m ∧ (dep ∈ m.depends ∨ dep ∈ c.conditionalDeps name) := by
  unfold effectiveDeps
  cases c.module? name with
  | none => simp
  | some m => simp [mem_foldl_addNew]

/-- What the set parameters of a module require. -/
theorem mem_conditionalDeps {name dep : String} :
    dep ∈ c.conditionalDeps name
      ↔ ∃ h, c.moduleHeader? name = some h
          ∧ ∃ p ∈ h.params, p.isSet = true ∧ dep ∈ p.conditionalDeps := by
  unfold conditionalDeps
  cases c.moduleHeader? name with
  | none => simp
  | some h =>
      simp only [List.mem_flatMap, Option.some.injEq, exists_eq_left', Parameter.activeDeps]
      refine exists_congr fun p => and_congr_right ?_
      intro _
      cases p.isSet <;> simp

/-! ## The walk that enables -/

/-- Enabling adds the names that it reports and no others. -/
theorem isEnabled_pull (c : Catalog) (todo : List String) (name : String) :
    (c.pull todo).1.isEnabled name = true ↔ c.isEnabled name = true ∨ name ∈ (c.pull todo).2 := by
  fun_induction pull c todo with
  | case1 c => simp
  | case2 c dep rest hdep c' after names heq ih =>
      rw [heq] at ih
      rw [ih, isEnabled_switchOn, List.mem_cons]
      by_cases hname : name = dep
      · simp [hname, hdep.1]
      · simp [hname]
  | case3 c dep rest _ ih => exact ih

/-- All modules of the list are enabled in the end, and so is what the added modules depend on. -/
theorem isEnabled_pull_of_mem {todo : List String} {name : String} (hname : c.isModule name = true)
    (h : name ∈ todo ∨ ∃ user ∈ (c.pull todo).2, name ∈ c.effectiveDeps user) :
    (c.pull todo).1.isEnabled name = true := by
  fun_induction pull c todo with
  | case1 c => simp at h
  | case2 c dep rest hdep c' after names heq ih =>
      rw [heq] at ih
      have hgraph := sameGraph_switchOn c dep
      have hgrow : c'.isEnabled name = true → after.isEnabled name = true := fun he => by
        have hpull := isEnabled_pull c' (c'.effectiveDeps dep ++ rest) name
        rw [heq] at hpull
        exact hpull.2 (.inl he)
      rw [← hgraph.isModule name] at hname
      rcases h with h | ⟨user, huser, h⟩
      · rcases List.mem_cons.1 h with rfl | h
        · refine hgrow ?_
          rw [isEnabled_switchOn, if_pos rfl]
          exact hdep.1
        · exact ih hname (.inl (List.mem_append_right _ h))
      · rw [← hgraph.effectiveDeps user] at h
        rcases List.mem_cons.1 huser with rfl | huser
        · exact ih hname (.inl (List.mem_append_left _ h))
        · exact ih hname (.inr ⟨user, huser, h⟩)
  | case3 c dep rest hdep ih =>
      rcases h with h | h
      · rcases List.mem_cons.1 h with rfl | h
        · have he : c.isEnabled name = true := by
            by_contra he
            exact hdep ⟨hname, by simpa using he⟩
          exact (isEnabled_pull c rest name).2 (.inl he)
        · exact ih hname (.inl h)
      · exact ih hname (.inr h)

/-- Whatever holds of the listed names and passes from each module that is not enabled to what it
depends on holds of all names that the walk adds. -/
theorem pull_mem_induction {P : String → Prop} {todo : List String}
    (hlist : ∀ name ∈ todo, P name)
    (hdeps : ∀ name, P name → c.isModule name = true → c.isEnabled name = false →
      ∀ dep ∈ c.effectiveDeps name, P dep) :
    ∀ name ∈ (c.pull todo).2, P name ∧ c.isModule name = true ∧ c.isEnabled name = false := by
  fun_induction pull c todo with
  | case1 c => simp
  | case2 c dep rest hdep c' after names heq ih =>
      rw [heq] at ih
      have hgraph := sameGraph_switchOn c dep
      have hPdep : P dep := hlist dep List.mem_cons_self
      have hdisabled : ∀ name, c'.isEnabled name = false → c.isEnabled name = false :=
        fun name h => by
          by_contra he
          rw [isEnabled_switchOn_of_isEnabled (by simpa using he)] at h
          cases h
      intro name hname
      rcases List.mem_cons.1 hname with rfl | hname
      · exact ⟨hPdep, hdep⟩
      · have hrec := ih (fun other hother => by
            rcases List.mem_append.1 hother with hother | hother
            · rw [hgraph.effectiveDeps dep] at hother
              exact hdeps dep hPdep hdep.1 hdep.2 other hother
            · exact hlist other (List.mem_cons_of_mem _ hother))
          (fun user hP hmod hoff other hother => by
            rw [hgraph.isModule user] at hmod
            rw [hgraph.effectiveDeps user] at hother
            exact hdeps user hP hmod (hdisabled user hoff) other hother)
          name hname
        exact ⟨hrec.1, by rw [← hgraph.isModule name]; exact hrec.2.1, hdisabled name hrec.2.2⟩
  | case3 c dep rest _ ih =>
      exact ih (fun name h => hlist name (List.mem_cons_of_mem _ h)) hdeps

/-- A name that the walk adds stands on its list, or a module that was added before depends on it. -/
theorem exists_user_before_of_pull {todo : List String} {name : String} :
    ∀ before behind, (c.pull todo).2 = before ++ name :: behind →
      name ∈ todo ∨ ∃ user ∈ before, name ∈ c.effectiveDeps user := by
  fun_induction pull c todo with
  | case1 c => simp
  | case2 c dep rest hdep c' after names heq ih =>
      rw [heq] at ih
      have hgraph := sameGraph_switchOn c dep
      intro before behind h
      cases before with
      | nil =>
          obtain ⟨rfl, -⟩ := List.cons.inj h
          exact .inl List.mem_cons_self
      | cons first before =>
          obtain ⟨rfl, hnames⟩ := List.cons.inj h
          rcases ih before behind hnames with htodo | ⟨user, huser, hname⟩
          · rcases List.mem_append.1 htodo with hname | hrest
            · rw [hgraph.effectiveDeps dep] at hname
              exact .inr ⟨dep, List.mem_cons_self, hname⟩
            · exact .inl (List.mem_cons_of_mem _ hrest)
          · rw [hgraph.effectiveDeps user] at hname
            exact .inr ⟨user, List.mem_cons_of_mem _ huser, hname⟩
  | case3 c dep rest _ ih =>
      intro before behind h
      exact (ih before behind h).imp_left (List.mem_cons_of_mem _)

theorem exists_user_of_mem_pull {todo : List String} {name : String} (h : name ∈ (c.pull todo).2) :
    name ∈ todo ∨ ∃ user ∈ (c.pull todo).2, name ∈ c.effectiveDeps user := by
  obtain ⟨before, behind, hsplit⟩ := List.append_of_mem h
  refine (exists_user_before_of_pull before behind hsplit).imp_right ?_
  rintro ⟨user, huser, hname⟩
  exact ⟨user, hsplit ▸ List.mem_append_left _ huser, hname⟩

/-- The walk names only modules that are not enabled yet, and so none of them twice. -/
theorem isEnabled_of_mem_pull {todo : List String} {name : String} (h : name ∈ (c.pull todo).2) :
    c.isModule name = true ∧ c.isEnabled name = false :=
  (pull_mem_induction (P := fun _ => True) (fun _ _ => trivial) (fun _ _ _ _ _ _ => trivial) name h).2

theorem nodup_pull (c : Catalog) (todo : List String) : (c.pull todo).2.Nodup := by
  fun_induction pull c todo with
  | case1 c => exact List.nodup_nil
  | case2 c dep rest hdep c' after names heq ih =>
      rw [heq] at ih
      refine List.nodup_cons.2 ⟨fun hmem => ?_, ih⟩
      have hpulled : dep ∈ (c'.pull (c'.effectiveDeps dep ++ rest)).2 := heq ▸ hmem
      have hoff := (isEnabled_of_mem_pull hpulled).2
      rw [isEnabled_switchOn, if_pos rfl, hdep.1] at hoff
      cases hoff
  | case3 c dep rest _ ih => exact ih

/-! ## The walk that disables -/

/-- Disabling removes the names that it reports and no others. -/
theorem isEnabled_cascade (c : Catalog) (todo : List String) (name : String) :
    (c.cascade todo).1.isEnabled name = true
      ↔ c.isEnabled name = true ∧ name ∉ (c.cascade todo).2 := by
  fun_induction cascade c todo with
  | case1 c => simp
  | case2 c first rest hfirst c' after names heq ih =>
      rw [heq] at ih
      rw [ih, isEnabled_switchOff, List.mem_cons]
      by_cases hname : name = first
      · simp [hname]
      · simp [hname]
  | case3 c first rest _ ih => exact ih

/-- Whatever holds of the listed names and passes from each module to its dependents holds of all names
that the walk removes. -/
theorem cascade_mem_induction {P : String → Prop} {todo : List String}
    (hlist : ∀ name ∈ todo, P name)
    (hdependents : ∀ name, P name → ∀ user ∈ c.hardDependents name, P user) :
    ∀ name ∈ (c.cascade todo).2, P name ∧ c.isEnabled name = true := by
  fun_induction cascade c todo with
  | case1 c => simp
  | case2 c first rest hfirst c' after names heq ih =>
      rw [heq] at ih
      have hgraph := declared_switchOff c first
      have hP : P first := hlist first List.mem_cons_self
      intro name hname
      rcases List.mem_cons.1 hname with rfl | hname
      · exact ⟨hP, hfirst⟩
      · have hrec := ih (fun other hother => by
            rcases List.mem_append.1 hother with hother | hother
            · rw [hardDependents_congr hgraph] at hother
              exact hdependents first hP other hother
            · exact hlist other (List.mem_cons_of_mem _ hother))
          (fun dep hdep user huser => by
            rw [hardDependents_congr hgraph] at huser
            exact hdependents dep hdep user huser)
          name hname
        refine ⟨hrec.1, ?_⟩
        have hon := hrec.2
        rw [isEnabled_switchOff] at hon
        split at hon
        · cases hon
        · exact hon
  | case3 c first rest _ ih =>
      exact ih (fun name h => hlist name (List.mem_cons_of_mem _ h)) hdependents

theorem isEnabled_of_mem_cascade {todo : List String} {name : String}
    (h : name ∈ (c.cascade todo).2) : c.isEnabled name = true :=
  (cascade_mem_induction (P := fun _ => True) (fun _ _ => trivial) (fun _ _ _ _ => trivial) name h).2

theorem nodup_cascade (c : Catalog) (todo : List String) : (c.cascade todo).2.Nodup := by
  fun_induction cascade c todo with
  | case1 c => exact List.nodup_nil
  | case2 c first rest hfirst c' after names heq ih =>
      rw [heq] at ih
      refine List.nodup_cons.2 ⟨fun hmem => ?_, ih⟩
      have hremoved : first ∈ (c'.cascade (c'.hardDependents first ++ rest)).2 := heq ▸ hmem
      have hon := isEnabled_of_mem_cascade hremoved
      rw [isEnabled_switchOff, if_pos rfl] at hon
      cases hon
  | case3 c first rest _ ih => exact ih

/-- Where nothing on the list is enabled, nothing is disabled. -/
theorem cascade_of_disabled {todo : List String} (h : ∀ name ∈ todo, c.isEnabled name = false) :
    c.cascade todo = (c, []) := by
  induction todo with
  | nil => rw [cascade]
  | cons name todo ih =>
      have hoff := h name List.mem_cons_self
      rw [cascade, dif_neg (by simp [hoff])]
      exact ih fun other hother => h other (List.mem_cons_of_mem _ hother)

/-! ## What edits keep -/

/-- What headers decide and a new value keeps is kept by giving a parameter a value. -/
theorem setParameter_induction {P : Catalog → Prop}
    (hheaders : ∀ c d, d.headers = c.headers → P c → P d)
    (hvalue : ∀ c configuration name choices value old new,
      c.parameter configuration name = .ok old → old.accept choices value = .ok new → P c →
        P (c.withParameter configuration name new))
    {configuration name value : String} {change : Change}
    (h : c.setParameter configuration name value = .ok (change, d)) (hc : P c) : P d := by
  obtain ⟨old, new, e, hold, hnew, rfl, hd⟩ := setParameter_eq_ok h
  have hwith := hvalue c configuration name _ value old new hold hnew hc
  rcases hd with ⟨-, rfl⟩ | ⟨-, -, rfl⟩ | ⟨-, -, rfl⟩
  · exact hwith
  · exact hheaders _ _ ((sameGraph_pull _ _).trans (sameGraph_refreshAll _ _)).headers hwith
  · exact hheaders _ _ (sameGraph_refreshAll _ _).headers hwith

/-- What headers decide and a new value keeps is kept by an edit. -/
theorem edit_induction {P : Catalog → Prop}
    (hheaders : ∀ c d, d.headers = c.headers → P c → P d)
    (hvalue : ∀ c configuration name choices value old new,
      c.parameter configuration name = .ok old → old.accept choices value = .ok new → P c →
        P (c.withParameter configuration name new))
    {op : Operation} (hop : op.isEdit = true) (hc : P c) : P (c.step op) := by
  have hwithdraw : ∀ d name, P d → P (d.withdraw name).2 := by
    intro d name hd
    rw [withdraw_snd]
    exact hheaders _ _ ((sameGraph_cascade _ _).trans (sameGraph_switchOff d name)).headers hd
  cases op with
  | select name =>
      exact step_select_induction hc fun _ => hheaders _ _ (sameGraph_enable c name).headers hc
  | unselect name => exact step_unselect_induction hc fun _ => hwithdraw c name hc
  | release names => exact release_induction (fun d name _ hd => hwithdraw d name hd) names hc
  | setParameter configuration name value =>
      exact step_setParameter_induction hc fun o d h => setParameter_induction hheaders hvalue h hc
  | zeroParameter r =>
      exact step_setParameter_induction hc fun o d h => setParameter_induction hheaders hvalue h hc
  | syncAutoenabled => cases hop
  | applyUserConfiguration configuration text => cases hop
  | applyTo p => cases hop

end Configurator.Catalog
