import Configurator.Proofs.Catalog.Dependents
import Configurator.Proofs.Catalog.Disabling
import Configurator.Proofs.Catalog.Closing

/-!
# Flags that are left unsatisfied

Unselecting a module leaves alone the flags that require what is gone. It reports them, in order
and without repetition (`mem_unsatisfied_withdraw`), and clearing all that it reports, in any order,
makes a closed catalogue closed again (`unsatisfied_spec`).

Clearing a flag enables and disables nothing, and what it does to the parameters is kept as an invariant
of the round (`Cleared`): flags that are set were set before, and none of those treated so far is. An
enabled module that still depends on something gone would do so through a set flag, since what modules
list is taken care of by coherence; but that flag was reported, and so it is cleared.
-/

namespace Configurator

/-! ## The order of references -/

namespace ParamRef

theorem le_total (r s : ParamRef) : (r.le s || s.le r) = true := by
  rw [Bool.or_eq_true]
  unfold le
  by_cases hmodule : r.module = s.module
  · by_cases hconfiguration : r.configuration = s.configuration
    · simp only [hmodule, hconfiguration, if_true, decide_eq_true_eq]
      exact Std.le_total
    · simp only [hmodule, hconfiguration, Ne.symm hconfiguration, if_true, if_false,
        decide_eq_true_eq]
      exact Std.le_total
  · simp only [hmodule, Ne.symm hmodule, if_false, decide_eq_true_eq]
    exact Std.le_total

theorem le_trans (r s t : ParamRef) (h : r.le s = true) (h' : s.le t = true) : r.le t = true := by
  unfold le at *
  split at h <;> split at h' <;> grind

end ParamRef

/-- The texts for false are no texts for true, and zero is one of them. -/
theorem Parameter.accept_zero {p : Parameter} (htype : p.type = .boolean)
    (choices : Option ValueList) :
    p.accept choices "0" = .ok { p with value := "0" } := by
  have hform : booleanForm? "0" = some "0" := by decide +kernel
  simp [accept, htype, hform]

theorem Parameter.isSet_zero (p : Parameter) : ({ p with value := "0" } : Parameter).isSet = false := by
  have htext : isTrueText "0" = false := by decide +kernel
  simp [isSet, htext]

namespace Catalog

variable {c d e : Catalog} {name : String} {r : ParamRef}

/-! ## The report -/

/-- Whether a reference leads to a flag of an enabled module that is set and requires one of some
names. -/
def Unsatisfied (c : Catalog) (names : List String) (r : ParamRef) : Prop :=
  c.isEnabled r.module = true
    ∧ (∃ m, c.module? r.module = some m ∧ m.configuration = some r.configuration)
    ∧ ∃ p, c.parameter r.configuration r.name = .ok p ∧ p.type = .boolean ∧ p.isSet = true
        ∧ ∃ dep ∈ p.conditionalDeps, dep ∈ names

theorem mem_foldl_unlessFound {gates found : List ParamRef} :
    r ∈ gates.foldl (fun found gate => if gate ∈ found then found else found ++ [gate]) found
      ↔ r ∈ found ∨ r ∈ gates := by
  induction gates generalizing found with
  | nil => simp
  | cons gate gates ih =>
      rw [List.foldl_cons, ih, List.mem_cons]
      split
      · next hfound =>
        constructor
        · rintro (h | h)
          · exact .inl h
          · exact .inr (.inr h)
        · rintro (h | rfl | h)
          · exact .inl h
          · exact .inl hfound
          · exact .inr h
      · rw [List.mem_append, List.mem_singleton, or_assoc]

theorem nodup_foldl_unlessFound {gates found : List ParamRef} (h : found.Nodup) :
    (gates.foldl (fun found gate => if gate ∈ found then found else found ++ [gate]) found).Nodup := by
  induction gates generalizing found with
  | nil => exact h
  | cons gate gates ih =>
      rw [List.foldl_cons]
      split
      · exact ih h
      · next hnew =>
        refine ih (List.nodup_append.2 ⟨h, List.nodup_singleton gate, fun a ha b hb heq => ?_⟩)
        rw [List.mem_singleton] at hb
        exact hnew (hb ▸ heq ▸ ha)

theorem mem_unsatisfiedBy (hbuilt : c.IsBuilt) {names : List String} :
    r ∈ c.unsatisfiedBy names ↔ c.Unsatisfied names r := by
  rw [unsatisfiedBy, List.mem_mergeSort, mem_foldl_unlessFound, List.mem_filter, List.mem_flatMap,
    Bool.and_eq_true]
  constructor
  · rintro (hnil | ⟨⟨dep, hname, hgate⟩, hon, hset⟩)
    · cases hnil
    · obtain ⟨m, p, hm, hpath, hp, hset, hdep⟩ := hbuilt.mem_conditionalGates_isSet.1 ⟨hgate, hset⟩
      exact ⟨hon, ⟨m, hm, hpath⟩, p, hp, Parameter.type_of_isSet hset, hset, dep, hdep, hname⟩
  · rintro ⟨hon, ⟨m, hm, hpath⟩, p, hp, -, hset, dep, hdep, hname⟩
    obtain ⟨hgate, hset⟩ :=
      hbuilt.mem_conditionalGates_isSet.2 ⟨m, p, hm, hpath, hp, hset, hdep⟩
    exact .inr ⟨⟨dep, hname, hgate⟩, hon, hset⟩

theorem pairwise_unsatisfiedBy (c : Catalog) (names : List String) :
    (c.unsatisfiedBy names).Pairwise fun r s => r.le s = true :=
  List.pairwise_mergeSort ParamRef.le_trans ParamRef.le_total _

theorem nodup_unsatisfiedBy (c : Catalog) (names : List String) : (c.unsatisfiedBy names).Nodup :=
  (List.mergeSort_perm _ _).nodup_iff.2 (nodup_foldl_unlessFound List.nodup_nil)

/-! ## Clearing flags -/

/-- What clearing some flags leaves of a catalogue. -/
structure Cleared (c : Catalog) (rs : List ParamRef) (d : Catalog) : Prop where
  declared : d.declared = c.declared
  modules : d.modules = c.modules
  kept : ∀ path name p, d.parameter path name = .ok p → p.isSet = true →
    c.parameter path name = .ok p
  cleared : ∀ r ∈ rs, d.isSet r = false

theorem Cleared.refl (c : Catalog) : c.Cleared [] c :=
  ⟨rfl, rfl, fun _ _ _ hp _ => hp, by simp⟩

/-- Whether a reference leads to a flag. -/
def IsFlag (c : Catalog) (r : ParamRef) : Prop :=
  ∃ p, c.parameter r.configuration r.name = .ok p ∧ p.type = .boolean

/-- Clearing a flag succeeds. It enables and disables nothing, and only that flag changes. -/
theorem exists_zeroParameter (hflag : c.IsFlag r) :
    ∃ old change d, c.parameter r.configuration r.name = .ok old
      ∧ c.zeroParameter r = .ok (change, d) ∧ d.modules = c.modules
      ∧ d.headers = (c.withParameter r.configuration r.name { old with value := "0" }).headers := by
  obtain ⟨p, hp, htype⟩ := hflag
  have haccept := Parameter.accept_zero htype (p.valueList.bind c.lists.get?)
  obtain ⟨⟨change, d⟩, hd⟩ := setParameter_of_ok hp haccept
  refine ⟨p, change, d, hp, hd, ?_⟩
  obtain ⟨old, new, e, hold, hnew, rfl, hcases⟩ := setParameter_eq_ok hd
  rw [hp, Except.ok.injEq] at hold
  subst hold
  rw [haccept, Except.ok.injEq] at hnew
  subst hnew
  rcases hcases with ⟨-, rfl⟩ | ⟨-, hset, -⟩ | ⟨-, -, rfl⟩
  · exact ⟨rfl, rfl⟩
  · rw [Parameter.isSet_zero] at hset
    cases hset
  · have hgraph := sameGraph_refreshAll (c.withParameter r.configuration r.name { p with value := "0" })
      ((c.withParameter r.configuration r.name { p with value := "0" }).owners r.configuration)
    exact ⟨refreshAll_induction (P := fun d => d.modules = c.modules) (fun _ _ hd => hd) _ rfl,
      hgraph.headers⟩

theorem Cleared.isFlag {rs : List ParamRef} (h : c.Cleared rs d) (hflag : c.IsFlag r) :
    d.IsFlag r := by
  obtain ⟨p, hp, htype⟩ := hflag
  obtain ⟨q, hq, heq⟩ := exists_parameter h.declared.symm hp
  exact ⟨q, hq, (congrArg (·.type) heq).trans htype⟩

/-- Clearing flags adds no dependencies. -/
theorem Cleared.mem_effectiveDeps {rs : List ParamRef} (h : c.Cleared rs d) {user dep : String}
    (hdep : dep ∈ d.effectiveDeps user) : dep ∈ c.effectiveDeps user := by
  obtain ⟨m, hm, hreason⟩ := mem_effectiveDeps_iff.1 hdep
  rw [module?, h.modules] at hm
  refine mem_effectiveDeps_iff.2 ⟨m, hm, hreason.imp_right ?_⟩
  rintro ⟨path, flag, p, hpath, hp, hset, hrequired⟩
  exact ⟨path, flag, p, hpath, h.kept path flag p hp hset, hset, hrequired⟩

theorem Cleared.isEnabled {rs : List ParamRef} (h : c.Cleared rs d) (name : String) :
    d.isEnabled name = c.isEnabled name := by
  simp only [Catalog.isEnabled, module?, h.modules]

theorem Cleared.zeroParameter {rs : List ParamRef} (h : c.Cleared rs d) (hflag : c.IsFlag r) :
    ∃ change e, d.zeroParameter r = .ok (change, e) ∧ c.Cleared (rs ++ [r]) e := by
  obtain ⟨old, change, e, hold, hzero, hmodules, hheaders⟩ := exists_zeroParameter (h.isFlag hflag)
  have hparameter : ∀ path name, e.parameter path name
      = (d.withParameter r.configuration r.name { old with value := "0" }).parameter path name := by
    intro path name
    rw [parameter, parameter, hheaders]
  have hself : e.parameter r.configuration r.name = .ok { old with value := "0" } := by
    rw [hparameter]
    exact parameter_withParameter_self hold rfl
  have hother : ∀ {path name}, (r.configuration, r.name) ≠ (path, name) →
      e.parameter path name = d.parameter path name := by
    intro path name hne
    rw [hparameter]
    exact parameter_withParameter_of_ne hne
  refine ⟨change, e, hzero, (declared_setParameter hzero).trans h.declared, hmodules.trans h.modules,
    fun path name p hp hset => ?_, fun s hs => ?_⟩
  · by_cases hsame : (r.configuration, r.name) = (path, name)
    · obtain ⟨rfl, rfl⟩ := Prod.mk.inj hsame
      rw [hself, Except.ok.injEq] at hp
      rw [← hp, Parameter.isSet_zero] at hset
      cases hset
    · rw [hother hsame] at hp
      exact h.kept path name p hp hset
  · by_cases hsame : (r.configuration, r.name) = (s.configuration, s.name)
    · obtain ⟨hconfiguration, hname⟩ := Prod.mk.inj hsame
      rw [isSet, ← hconfiguration, ← hname, hself]
      exact Parameter.isSet_zero old
    · have hrest : s ∈ rs := (List.mem_append.1 hs).resolve_right fun hmem =>
        hsame (by rw [List.mem_singleton.1 hmem])
      have hbefore := h.cleared s hrest
      rwa [isSet, hother hsame]

/-- Clears some flags, one after the other. -/
def clearAll (c : Catalog) (rs : List ParamRef) : Except Error Catalog :=
  rs.foldlM (fun d r => (d.zeroParameter r).map Prod.snd) c

theorem Cleared.clearAll {done rs : List ParamRef} (h : c.Cleared done d)
    (hflags : ∀ r ∈ rs, c.IsFlag r) : ∃ e, d.clearAll rs = .ok e ∧ c.Cleared (done ++ rs) e := by
  induction rs generalizing done d with
  | nil => exact ⟨d, rfl, by rwa [List.append_nil]⟩
  | cons r rs ih =>
      obtain ⟨hflag, hrest⟩ := List.forall_mem_cons.1 hflags
      obtain ⟨change, e, hzero, hcleared⟩ := h.zeroParameter hflag
      obtain ⟨e', hrun, hend⟩ := ih hcleared hrest
      refine ⟨e', ?_, by rwa [List.append_assoc] at hend⟩
      rw [Catalog.clearAll, List.foldlM_cons, hzero]
      exact hrun

/-! ## The repair -/

/-- Clearing what is unsatisfied closes a coherent catalogue that lacks nothing but some names. -/
theorem Cleared.closed (hc : c.Coherent) {names : List String} {rs : List ParamRef}
    (hlacks : ∀ user, c.isEnabled user = true → ∀ dep ∈ c.effectiveDeps user,
      c.isModule dep = true → c.isEnabled dep = true ∨ dep ∈ names)
    (hrs : ∀ r, c.Unsatisfied names r → r ∈ rs) (h : c.Cleared rs d) : d.Closed := by
  intro user huser dep hdep hmod
  rw [h.isEnabled] at huser ⊢
  rw [isModule_congr h.declared] at hmod
  obtain ⟨m, hm, hreason⟩ := mem_effectiveDeps_iff.1 hdep
  rw [module?, h.modules] at hm
  rcases hreason with hlisted | ⟨path, flag, p, hpath, hp, hset, hrequired⟩
  · obtain ⟨m', hm', hon⟩ := isEnabled_iff.1 huser
    have hsame : m = m' := Option.some.inj (hm.symm.trans hm')
    exact hc.depends user m hm (hsame ▸ hon) dep hlisted hmod
  · have hbefore := h.kept path flag p hp hset
    have hcdep : dep ∈ c.effectiveDeps user :=
      mem_effectiveDeps_iff.2 ⟨m, hm, .inr ⟨path, flag, p, hpath, hbefore, hset, hrequired⟩⟩
    refine (hlacks user huser dep hcdep hmod).resolve_right fun hname => ?_
    have hreported : (⟨user, path, flag⟩ : ParamRef) ∈ rs :=
      hrs _ ⟨huser, ⟨m, hm, hpath⟩, p, hbefore, Parameter.type_of_isSet hset, hset, dep, hrequired,
        hname⟩
    have hoff := h.cleared _ hreported
    rw [isSet_iff.2 ⟨p, hp, hset⟩] at hoff
    cases hoff

theorem unsatisfied_withdraw (c : Catalog) (name : String) :
    (c.withdraw name).1.unsatisfied
      = (c.withdraw name).2.unsatisfiedBy (name :: (c.withdraw name).1.disabled) :=
  rfl

/-- After a module was withdrawn from a closed catalogue, what enabled modules lack is what is gone. -/
theorem Closed.isEnabled_withdraw_or (hc : c.Closed) {user dep : String}
    (huser : (c.withdraw name).2.isEnabled user = true)
    (hdep : dep ∈ (c.withdraw name).2.effectiveDeps user)
    (hmod : (c.withdraw name).2.isModule dep = true) :
    (c.withdraw name).2.isEnabled dep = true ∨ dep ∈ name :: (c.withdraw name).1.disabled := by
  have hgraph := sameGraph_withdraw c name
  rw [hgraph.effectiveDeps user] at hdep
  rw [hgraph.isModule dep] at hmod
  have hon := hc user ((isEnabled_withdraw c name user).1 huser).1 dep hdep hmod
  by_cases hgone : dep ∈ name :: (c.withdraw name).1.disabled
  · exact .inr hgone
  · exact .inl ((isEnabled_withdraw c name dep).2 ⟨hon, hgone⟩)

/-- In every state that a catalogue can get into, unselecting a module reports, in order and without
repetition, the set flags of enabled modules that require something which is gone. Clearing them
succeeds in any order, and if the catalogue was closed before it is closed again. -/
theorem unsatisfied_spec (sourceRoot : String) (modules : List Module) (headers : List Header)
    (lists : List ValueList) (ops : List Operation) (name : String) :
    let c := (build sourceRoot modules headers lists).run ops
    c.isModule name = true → ∃ o d, c.unselect name = .ok (o, d)
      ∧ (o.unsatisfied.Pairwise fun r s => r.le s = true) ∧ o.unsatisfied.Nodup
      ∧ (∀ r, r ∈ o.unsatisfied ↔ d.Unsatisfied (name :: o.disabled) r)
      ∧ ∀ rs, rs.Perm o.unsatisfied → ∃ e, d.clearAll rs = .ok e ∧ (c.Closed → e.Closed) := by
  intro c hname
  have hbuilt : c.IsBuilt := (isBuilt_build ..).run ops
  have hc : c.Coherent := (coherent_build ..).run (isBuilt_build ..) ops
  have hreport : ∀ r, r ∈ (c.withdraw name).1.unsatisfied
      ↔ (c.withdraw name).2.Unsatisfied (name :: (c.withdraw name).1.disabled) r := by
    intro r
    rw [unsatisfied_withdraw]
    exact mem_unsatisfiedBy (hbuilt.congr (declared_withdraw c name))
  refine ⟨_, _, unselect_of_isModule hname, pairwise_unsatisfiedBy _ _, nodup_unsatisfiedBy _ _,
    hreport, fun rs hperm => ?_⟩
  have hflags : ∀ r ∈ rs, (c.withdraw name).2.IsFlag r := by
    intro r hr
    obtain ⟨-, -, p, hp, htype, -⟩ := (hreport r).1 (hperm.mem_iff.1 hr)
    exact ⟨p, hp, htype⟩
  obtain ⟨e, hrun, hcleared⟩ := (Cleared.refl _).clearAll hflags
  refine ⟨e, hrun, fun hclosed => ?_⟩
  exact hcleared.closed (hc.withdraw hbuilt name)
    (fun _ huser _ hdep hmod => hclosed.isEnabled_withdraw_or huser hdep hmod)
    fun r hr => hperm.mem_iff.2 ((hreport r).2 hr)

/-- Both owners of the flag are enabled when `irq`, which it requires, is taken away. -/
theorem unsatisfied_spec_busModules :
    let c := (build "" busModules [busHeader] []).run
      [.select "uart", .setParameter "cfg_bus.h" "CONFIG_FAST" "on", .select "spi"]
    c.isModule "irq" = true ∧ c.Closed ∧ ∃ o d, c.unselect "irq" = .ok (o, d)
      ∧ (o.unsatisfied.Pairwise fun r s => r.le s = true) ∧ o.unsatisfied.Nodup
      ∧ (∀ r, r ∈ o.unsatisfied ↔ d.Unsatisfied ("irq" :: o.disabled) r)
      ∧ ∀ rs, rs.Perm o.unsatisfied → ∃ e, d.clearAll rs = .ok e ∧ e.Closed := by
  intro c
  have hidle : (build "" busModules [busHeader] []).Idle := isEnabled_build "" busModules [busHeader] []
  have hclosed : c.Closed := hidle.closed.run (isBuilt_build ..) (by simp [Operation.onlyEnables])
  have hirq : c.isModule "irq" = true := by
    rw [isModule_congr (declared_run _ _)]
    decide +kernel
  obtain ⟨o, d, hok, hsorted, hnodup, hreport, hrepair⟩ := unsatisfied_spec "" busModules [busHeader] []
    [.select "uart", .setParameter "cfg_bus.h" "CONFIG_FAST" "on", .select "spi"] "irq" hirq
  refine ⟨hirq, hclosed, o, d, hok, hsorted, hnodup, hreport, fun rs hperm => ?_⟩
  obtain ⟨e, hrun, hend⟩ := hrepair rs hperm
  exact ⟨e, hrun, hend hclosed⟩

end Catalog

end Configurator
