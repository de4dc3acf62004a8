import Mathlib
import Configurator.Proofs.Catalog.Closure
import Configurator.Proofs.Project.Values

/-!
# Restoring a selection

Recording a state and restoring it in a fresh catalogue need not give the same selection back, for two
reasons. A module can be disabled while a flag of an enabled module still requires it; the flag is
recorded as set, and restoring follows it. And a state with enabled modules of which none was asked for
is recorded like a state in which all were. `applyTo_capture_iff` says that there is no other reason.

Restoring selects the recorded modules in a closed catalogue, so in the end exactly that is enabled
which they need under the restored values (`enabled_foldl`). All hard dependencies of the recorded
modules are recorded too, because states are coherent; what is left to compare are the flags. A flag is
restored as set if it was set, unless its header spells the value in a way that reads as false when it
is given back (`Parameter.staysSet`).
-/

namespace Configurator

/-! ## Flags -/

namespace Parameter

/-- Whether a parameter is set, and is so again when its value is recorded and given back. The words
`off` and `no` stand for true as long as they stand in a header, but for false when they are given. -/
def staysSet (p : Parameter) : Bool :=
  p.isSet && booleanForm? p.value ≠ some "0"

theorem isTrueText_of_booleanForm? {text : String} (h : booleanForm? text = some "1") :
    isTrueText text = true := by
  have hword : String.ofList (Text.asciiLower (Text.trim text.toList))
      ∈ ["1", "true", "yes", "on"] := by
    by_contra hnot
    simp only [booleanForm?, if_neg hnot] at h
    split at h <;> simp at h
  by_contra hfalse
  have hcases : Text.asciiLower (Text.trim text.toList) = []
      ∨ Text.asciiLower (Text.trim text.toList) = ['0']
      ∨ Text.asciiLower (Text.trim text.toList) = ['f', 'a', 'l', 's', 'e'] := by
    simp only [isTrueText, Bool.not_eq_true', Bool.not_eq_false, Bool.or_eq_true,
      decide_eq_true_eq] at hfalse
    rcases hfalse with (hblank | hzero) | hword
    · exact .inl (by rw [hblank]; rfl)
    · exact .inr (.inl (by rw [hzero]; rfl))
    · exact .inr (.inr hword)
  rcases hcases with heq | heq | heq
  all_goals
    rw [heq] at hword
    revert hword
    decide

theorem restored_of_boolean {p : Parameter} (htype : p.type = .boolean)
    (choices : Option ValueList) (text : String) :
    p.restored choices text = { p with value := (booleanForm? text).getD p.value } := by
  cases p
  simp only at htype
  subst htype
  unfold restored accept
  cases booleanForm? text <;> rfl

/-- A flag with its value from the header or in canonical form is restored as set exactly if it stays
set. -/
theorem isSet_restored {p q : Parameter} {choices : Option ValueList}
    (hdecl : p.declared = q.declared) (htype : q.type = .boolean)
    (hvalue : q.value = p.value ∨ q.value = "0" ∨ q.value = "1") :
    (p.restored choices q.value).isSet = q.staysSet := by
  have hptype : p.type = .boolean := (congrArg (·.type) hdecl).trans htype
  rw [restored_of_boolean hptype]
  simp only [isSet, staysSet, hptype, htype, decide_true, Bool.true_and]
  cases hform : booleanForm? q.value with
  | none =>
      have hsame : q.value = p.value := by
        rcases hvalue with heq | heq | heq
        · exact heq
        · rw [heq] at hform
          exact absurd hform (by decide)
        · rw [heq] at hform
          exact absurd hform (by decide)
      simp [hsame]
  | some value =>
      rcases booleanForm?_eq hform with rfl | rfl
      · have hunset : isTrueText "0" = false := by decide
        simp [hunset]
      · have hset : isTrueText "1" = true := by decide
        simp [hset, isTrueText_of_booleanForm? hform]

end Parameter

namespace Catalog

variable {c d : Catalog}

/-- Whether each flag of a state has its value from a fresh catalogue or in canonical form. -/
def FlagsFrom (fresh c : Catalog) : Prop :=
  ∀ path name q, c.parameter path name = .ok q → q.type = .boolean →
    ∃ p, fresh.parameter path name = .ok p ∧ p.declared = q.declared
      ∧ (q.value = p.value ∨ q.value = "0" ∨ q.value = "1")

theorem FlagsFrom.of_headers {fresh : Catalog} (hc : FlagsFrom fresh c) (h : d.headers = c.headers) :
    FlagsFrom fresh d := by
  intro path name q hq
  refine hc path name q ?_
  simpa only [parameter, h] using hq

theorem FlagsFrom.withParameter {fresh : Catalog} (hc : FlagsFrom fresh c)
    {configuration name value : String} {old new : Parameter} {choices : Option ValueList}
    (hold : c.parameter configuration name = .ok old) (hnew : old.accept choices value = .ok new) :
    FlagsFrom fresh (c.withParameter configuration name new) := by
  intro path other q hq htype
  have hdecl := Parameter.declared_accept hnew
  by_cases hne : (configuration, name) = (path, other)
  · obtain ⟨rfl, rfl⟩ := Prod.mk.inj hne
    rw [parameter_withParameter_self hold hdecl, Except.ok.injEq] at hq
    subst hq
    have holdtype : old.type = .boolean := (congrArg (·.type) hdecl).symm.trans htype
    obtain ⟨p, hp, hpdecl, -⟩ := hc configuration name old hold holdtype
    refine ⟨p, hp, hpdecl.trans hdecl.symm, .inr ?_⟩
    rcases Parameter.accept_eq_ok hnew with ⟨-, form, hform, rfl⟩ | ⟨hint, -⟩ | ⟨hother, -⟩
    · exact Parameter.booleanForm?_eq hform
    · rw [holdtype] at hint
      cases hint
    · rw [holdtype] at hother
      simp at hother
  · rw [parameter_withParameter_of_ne hne] at hq
    exact hc path other q hq htype

/-- Editing gives flags canonical values only. -/
theorem FlagsFrom.step {fresh : Catalog} (hc : FlagsFrom fresh c) {op : Operation}
    (hop : op.isEdit = true) : FlagsFrom fresh (c.step op) :=
  edit_induction (fun _ _ hheaders hd => hd.of_headers hheaders)
    (fun _ _ _ _ _ _ _ hold hnew hd => hd.withParameter hold hnew) hop hc

theorem FlagsFrom.run {fresh : Catalog} (hc : FlagsFrom fresh c) {ops : List Operation}
    (hops : ∀ op ∈ ops, op.isEdit = true) : FlagsFrom fresh (c.run ops) :=
  run_induction ops (fun _ op ho hd => hd.step (hops op ho)) hc

theorem flagsFrom_self (c : Catalog) : FlagsFrom c c :=
  fun _ _ q hq _ => ⟨q, hq, rfl, .inl rfl⟩

/-! ## Selecting the recorded modules -/

theorem Idle.closed (hc : c.Idle) : c.Closed := by
  intro user huser
  rw [hc user] at huser
  cases huser

/-- What a closed catalogue's enabled modules need is enabled. -/
theorem Closed.isEnabled_of_needed (hc : c.Closed) {names : List String} {name : String}
    (hnames : ∀ n ∈ names, c.isModule n = true → c.isEnabled n = true) (h : Needed c names name) :
    c.isEnabled name = true :=
  needed_induction (P := fun n => c.isEnabled n = true) hnames hc h

end Catalog

namespace Project

open Catalog

variable {p : Project} {r : Catalog} {state : List String × Catalog}

/-- Restoring a module selects it, unless that is not needed or not possible. -/
theorem restoreModule_snd (p : Project) (state : List String × Catalog) (name : String) :
    (state.2.isModule name = true
        ∧ (p.restoreModule state name).2 = (state.2.enable name).1)
      ∨ ((name ∈ p.askedFor → state.2.isModule name = false)
        ∧ (state.2.isModule name = true → state.2.isEnabled name = true)
        ∧ (p.restoreModule state name).2 = state.2) := by
  rw [restoreModule_eq]
  split
  · next hskip =>
    simp only [Bool.and_eq_true, decide_eq_true_eq] at hskip
    exact .inr ⟨fun hasked => absurd hasked hskip.2, fun _ => hskip.1, rfl⟩
  · split
    · next o d hok =>
      obtain ⟨hmod, -, rfl⟩ := select_eq_ok hok
      exact .inl ⟨hmod, rfl⟩
    · next e herror =>
      have hmod : state.2.isModule name = false := by
        by_contra hmod
        rw [select_of_isModule (by simpa using hmod)] at herror
        cases herror
      refine .inr ⟨fun _ => hmod, fun hmod' => ?_, rfl⟩
      rw [hmod] at hmod'
      cases hmod'

/-- A state while the recorded modules are selected: closed, with the dependencies that the restored
values give. -/
structure Selecting (r c : Catalog) : Prop where
  graph : SameGraph c r
  closed : c.Closed

theorem Selecting.restoreModule (h : Selecting r state.2) (name : String) :
    Selecting r (p.restoreModule state name).2 := by
  rcases restoreModule_snd p state name with ⟨-, heq⟩ | ⟨-, -, heq⟩
  · rw [heq]
    exact ⟨(sameGraph_enable _ name).trans h.graph, h.closed.enable name⟩
  · rwa [heq]

theorem Selecting.foldl (h : Selecting r state.2) (names : List String) :
    Selecting r (names.foldl p.restoreModule state).2 :=
  List.foldlRecOn (motive := fun state : List String × Catalog => Selecting r state.2) _ _ h
    fun _ hstate name _ => hstate.restoreModule name

theorem isEnabled_restoreModule (h : Selecting r state.2) (name other : String) :
    (p.restoreModule state name).2.isEnabled other = true
      ↔ state.2.isEnabled other = true ∨ Needed r [name] other := by
  rcases restoreModule_snd p state name with ⟨hmod, heq⟩ | ⟨-, hon, heq⟩
  · rw [heq, isEnabled_enable h.closed hmod]
    refine or_congr_right ⟨fun hneed => hneed.of_sameGraph h.graph, fun hneed => ?_⟩
    exact hneed.of_sameGraph h.graph.symm
  · rw [heq]
    refine ⟨.inl, fun hor => hor.elim id fun hneed => ?_⟩
    refine h.closed.isEnabled_of_needed (fun n hn hmod => ?_) (hneed.of_sameGraph h.graph.symm)
    rw [List.mem_singleton.1 hn] at hmod ⊢
    exact hon hmod

/-- In the end exactly that is enabled which was or which the names need. -/
theorem enabled_foldl (h : Selecting r state.2) (names : List String) (other : String) :
    (names.foldl p.restoreModule state).2.isEnabled other = true
      ↔ state.2.isEnabled other = true ∨ Needed r names other := by
  induction names generalizing state with
  | nil => simp [Needed.not_nil]
  | cons name names ih =>
      rw [List.foldl_cons, ih (h.restoreModule name), isEnabled_restoreModule h, or_assoc,
        ← Needed.cons_iff]

/-- Modules that were asked for are asked for in the end. -/
theorem mem_explicit_foldl (h : Selecting r state.2) (names : List String) {name : String}
    (hname : name ∈ state.2.explicit
      ∨ (name ∈ names ∧ name ∈ p.askedFor ∧ r.isModule name = true)) :
    name ∈ (names.foldl p.restoreModule state).2.explicit := by
  induction names generalizing state with
  | nil => exact hname.resolve_right (by simp)
  | cons first names ih =>
      refine ih (h.restoreModule first) ?_
      have hfirst : name = first → name ∈ p.askedFor → r.isModule name = true →
          name ∈ (p.restoreModule state first).2.explicit := by
        rintro rfl hasked hmod
        rcases restoreModule_snd p state name with ⟨-, heq⟩ | ⟨hnot, -, -⟩
        · rw [heq, explicit_enable]
          exact NameSet.mem_insert.2 (.inl rfl)
        · rw [← h.graph.isModule name, hnot hasked] at hmod
          cases hmod
      rcases hname with hname | ⟨hmem, hasked, hmod⟩
      · refine .inl ?_
        rcases restoreModule_snd p state first with ⟨-, heq⟩ | ⟨-, -, heq⟩
        · rw [heq, explicit_enable]
          exact NameSet.mem_insert.2 (.inr hname)
        · rwa [heq]
      · rcases List.mem_cons.1 hmem with hmem | hmem
        · exact .inl (hfirst hmem hasked hmod)
        · exact .inr ⟨hmem, hasked, hmod⟩

/-! ## What is recorded -/

theorem mem_enabledModules_capture {c : Catalog} (hc : c.IsBuilt) (p : Project) {name : String} :
    name ∈ (p.capture c).enabledModules ↔ c.isEnabled name = true := by
  simp only [capture, List.mem_map, Catalog.enabledModules, List.mem_filter, NameMap.mem_values_iff]
  constructor
  · rintro ⟨m, ⟨⟨key, hkey⟩, he⟩, rfl⟩
    have hname : m.name = key := hc.name_eq hkey
    refine isEnabled_iff.2 ⟨m, ?_, he⟩
    rwa [hname]
  · intro he
    obtain ⟨m, hm, he⟩ := isEnabled_iff.1 he
    exact ⟨m, ⟨⟨name, hm⟩, he⟩, hc.name_eq hm⟩

theorem mem_explicitModules_capture {c : Catalog} (hc : c.IsBuilt) (hco : c.Coherent) (p : Project)
    {name : String} : name ∈ (p.capture c).explicitModules ↔ name ∈ c.explicit := by
  have hmem : name ∈ (p.capture c).explicitModules
      ↔ name ∈ (p.capture c).enabledModules ∧ name ∈ c.explicit := List.mem_filter
  rw [hmem, mem_enabledModules_capture hc]
  exact and_iff_right_of_imp (hco.explicit name)

/-- The recorded modules are the enabled ones. -/
theorem mem_recordedModules {c : Catalog} (hc : c.IsBuilt) (hco : c.Coherent) (p : Project)
    {name : String} :
    name ∈ (p.capture c).enabledModules ++ (p.capture c).explicitModules
      ↔ c.isEnabled name = true := by
  rw [List.mem_append, mem_enabledModules_capture hc, mem_explicitModules_capture hc hco]
  exact or_iff_left_of_imp (hco.explicit name)

/-- Without modules that were asked for, all enabled ones are restored as asked for. -/
theorem mem_askedFor_capture {c : Catalog} (hc : c.IsBuilt) (hco : c.Coherent) (p : Project)
    {name : String} :
    name ∈ (p.capture c).askedFor
      ↔ name ∈ c.explicit ∨ (c.explicit = .empty ∧ c.isEnabled name = true) := by
  unfold askedFor
  split
  · next hnil =>
    have hempty : c.explicit = .empty := by
      refine NameSet.ext_mem ?_
      intro n
      rw [← mem_explicitModules_capture hc hco p, hnil]
      simp
    rw [mem_enabledModules_capture hc, hempty]
    simp
  · next hsome =>
    have hempty : c.explicit ≠ .empty := by
      intro hempty
      refine hsome (List.eq_nil_iff_forall_not_mem.2 fun n hn => ?_)
      rw [mem_explicitModules_capture hc hco, hempty] at hn
      exact NameSet.not_mem_empty n hn
    rw [mem_explicitModules_capture hc hco]
    simp [hempty]

/-! ## Restored states -/

/-- Whether what flags of enabled modules require is enabled, for the flags that stay set. -/
def Satisfied (c : Catalog) : Prop :=
  ∀ user h q, c.isEnabled user = true → c.moduleHeader? user = some h → q ∈ h.params →
    q.staysSet = true → ∀ dep ∈ q.conditionalDeps, c.isModule dep = true → c.isEnabled dep = true

section

variable {fresh c : Catalog}

/-- What the flags of an enabled module require once its values are restored. -/
theorem mem_conditionalDeps_restored (hc : c.IsBuilt) (hdecl : c.declared = fresh.declared)
    (hidle : fresh.Idle) (hflags : FlagsFrom fresh c) (p : Project) {user dep : String}
    (huser : c.isEnabled user = true) :
    dep ∈ ((p.capture c).restoreValues fresh).2.conditionalDeps user
      ↔ ∃ h, c.moduleHeader? user = some h
          ∧ ∃ q ∈ h.params, q.staysSet = true ∧ dep ∈ q.conditionalDeps := by
  have honly := onlyValues_restoreValues hidle (p.capture c)
  have hdecl' : c.declared = ((p.capture c).restoreValues fresh).2.declared :=
    hdecl.trans honly.declared.symm
  obtain ⟨m, hm, he⟩ := isEnabled_iff.1 huser
  obtain ⟨m', hm', hmm⟩ := exists_module? hdecl' hm
  -- a flag of the header in either state, and whether it is set
  have hparam : ∀ path name q, m.configuration = some path → c.parameter path name = .ok q →
      q.type = .boolean → ∃ q', ((p.capture c).restoreValues fresh).2.parameter path name = .ok q'
        ∧ q'.isSet = q.staysSet ∧ q'.conditionalDeps = q.conditionalDeps := by
    intro path name q hpath hq htype
    obtain ⟨old, hold, hdeclq, hvalue⟩ := hflags path name q hq htype
    have howner := (owners_ne_nil_iff hc).2 ⟨user, m, hm, he, hpath⟩
    have hrecorded := mem_recorded_capture hc p howner hq (by rw [htype]; decide)
    have hrendered : q.rendered = q.value := by simp [Parameter.rendered, htype]
    rw [hrendered] at hrecorded
    refine ⟨_, parameter_restoreValues hidle hrecorded hold,
      Parameter.isSet_restored hdeclq htype hvalue, ?_⟩
    exact congrArg (·.conditionalDeps) ((Parameter.declared_restored old _ _).trans hdeclq)
  rw [mem_conditionalDeps, exists_moduleHeader?_iff hm', exists_moduleHeader?_iff hm,
    configuration_eq hmm]
  refine exists_congr fun path => exists_congr fun name => ⟨?_, ?_⟩
  · rintro ⟨q', hpath, hq', hset, hdep⟩
    obtain ⟨q, hq, hqq⟩ := exists_parameter hdecl'.symm hq'
    have htype : q.type = .boolean := (congrArg (·.type) hqq).trans (Parameter.type_of_isSet hset)
    obtain ⟨q'', hq'', hset'', hdeps''⟩ := hparam path name q hpath hq htype
    obtain rfl : q' = q'' := Except.ok.inj (hq'.symm.trans hq'')
    exact ⟨q, hpath, hq, hset'' ▸ hset, hdeps'' ▸ hdep⟩
  · rintro ⟨q, hpath, hq, hset, hdep⟩
    have htype : q.type = .boolean := by
      simp only [Parameter.staysSet, Bool.and_eq_true] at hset
      exact Parameter.type_of_isSet hset.1
    obtain ⟨q', hq', hset', hdeps'⟩ := hparam path name q hpath hq htype
    exact ⟨q', hpath, hq', hset'.trans hset, hdeps' ▸ hdep⟩

/-- Selecting starts with the restored values and with nothing enabled. -/
theorem selecting_restoreValues (hidle : fresh.Idle) (p : Project) :
    Selecting (p.restoreValues fresh).2 (p.restoreValues fresh).2 :=
  ⟨.refl _, ((onlyValues_restoreValues hidle p).idle hidle).closed⟩

/-- Restoring enables exactly what the recorded modules need under the restored values. -/
theorem isEnabled_applyTo (hidle : fresh.Idle) (p : Project) (name : String) :
    (p.applyTo fresh).2.isEnabled name = true
      ↔ Needed (p.restoreValues fresh).2 (p.enabledModules ++ p.explicitModules) name := by
  refine (enabled_foldl (selecting_restoreValues hidle p) _ name).trans (or_iff_right ?_)
  rw [(onlyValues_restoreValues hidle p).idle hidle name]
  simp

theorem mem_askedFor_of_explicit {name : String} (h : name ∈ (p.applyTo fresh).2.explicit) :
    name ∈ p.askedFor := by
  simp only [applyTo, retainExplicit, NameSet.mem_ofList, List.mem_filter, decide_eq_true_eq] at h
  exact h.2

/-- A module that is recorded as asked for is asked for in the end. -/
theorem mem_explicit_of_askedFor (hidle : fresh.Idle) {name : String}
    (hmem : name ∈ p.enabledModules ++ p.explicitModules) (hasked : name ∈ p.askedFor)
    (hmod : fresh.isModule name = true) : name ∈ (p.applyTo fresh).2.explicit := by
  simp only [applyTo, retainExplicit, NameSet.mem_ofList, List.mem_filter, NameSet.mem_toList,
    decide_eq_true_eq]
  refine ⟨mem_explicit_foldl (selecting_restoreValues hidle p) _ (.inr ⟨hmem, hasked, ?_⟩), hasked⟩
  rwa [isModule_congr (onlyValues_restoreValues hidle p).declared name]

/-- Restoring asks for exactly the modules that are recorded as asked for, as far as they exist. -/
theorem mem_explicit_applyTo (hidle : fresh.Idle) {p : Project}
    (hmodules : ∀ name ∈ p.askedFor,
      name ∈ p.enabledModules ++ p.explicitModules ∧ fresh.isModule name = true) (name : String) :
    name ∈ (p.applyTo fresh).2.explicit ↔ name ∈ p.askedFor := by
  refine ⟨mem_askedFor_of_explicit, fun hasked => ?_⟩
  obtain ⟨hmem, hmod⟩ := hmodules name hasked
  exact mem_explicit_of_askedFor hidle hmem hasked hmod

/-- Restoring a recorded state gives the enabled modules back exactly if the flags that stay set are
satisfied. -/
theorem isEnabled_applyTo_capture_iff (hc : c.IsBuilt) (hco : c.Coherent)
    (hdecl : c.declared = fresh.declared) (hidle : fresh.Idle) (hflags : FlagsFrom fresh c)
    (p : Project) :
    (∀ name, ((p.capture c).applyTo fresh).2.isEnabled name = c.isEnabled name) ↔ Satisfied c := by
  have honly := onlyValues_restoreValues hidle (p.capture c)
  have hmodule : ∀ name, ((p.capture c).restoreValues fresh).2.isModule name = c.isModule name :=
    isModule_congr (honly.declared.trans hdecl.symm)
  have hiff : ∀ name,
      ((p.capture c).applyTo fresh).2.isEnabled name = c.isEnabled name
        ↔ (Needed ((p.capture c).restoreValues fresh).2
            ((p.capture c).enabledModules ++ (p.capture c).explicitModules) name
          ↔ c.isEnabled name = true) := fun name => by
    rw [Bool.eq_iff_iff, isEnabled_applyTo hidle]
  rw [forall_congr' hiff]
  constructor
  · intro hsame user h q huser hh hq hset dep hdep hmod
    have hneed := (hsame user).2 huser
    refine (hsame dep).1 (hneed.depended ?_ (by rwa [hmodule]))
    obtain ⟨m, hm⟩ := isModule_iff.1 hneed.isModule
    refine mem_effectiveDeps.2 ⟨m, hm, .inr ?_⟩
    exact (mem_conditionalDeps_restored hc hdecl hidle hflags p huser).2 ⟨h, hh, q, hq, hset, hdep⟩
  · intro hsat name
    constructor
    · refine needed_induction (P := fun n => c.isEnabled n = true) ?_ ?_
      · intro n hn _
        exact (mem_recordedModules hc hco p).1 hn
      · intro user huser dep hdep hmod
        rw [hmodule] at hmod
        obtain ⟨m, hm, hdep⟩ := mem_effectiveDeps.1 hdep
        rcases hdep with hdep | hdep
        · obtain ⟨m', hm', hmm⟩ := exists_module? (honly.declared.trans hdecl.symm) hm
          obtain ⟨m'', hm'', he⟩ := isEnabled_iff.1 huser
          rw [hm', Option.some.injEq] at hm''
          subst hm''
          exact hco.depends user m' hm' he dep (by rwa [depends_eq hmm]) hmod
        · obtain ⟨h, hh, q, hq, hset, hdep⟩ :=
            (mem_conditionalDeps_restored hc hdecl hidle hflags p huser).1 hdep
          exact hsat user h q huser hh hq hset dep hdep hmod
    · intro hon
      exact .listed ((mem_recordedModules hc hco p).2 hon)
        (by rw [hmodule]; exact isModule_of_isEnabled hon)

/-- Restoring a recorded state gives the modules back that were asked for exactly if there are some,
or none is enabled. -/
theorem explicit_applyTo_capture_iff (hc : c.IsBuilt) (hco : c.Coherent)
    (hdecl : c.declared = fresh.declared) (hidle : fresh.Idle) (p : Project) :
    ((p.capture c).applyTo fresh).2.explicit = c.explicit
      ↔ (c.explicit = .empty → ∀ name, c.isEnabled name = false) := by
  have hmem : ∀ name, name ∈ ((p.capture c).applyTo fresh).2.explicit
      ↔ name ∈ c.explicit ∨ (c.explicit = .empty ∧ c.isEnabled name = true) := by
    intro name
    refine (mem_explicit_applyTo hidle (fun n hn => ?_) name).trans (mem_askedFor_capture hc hco p)
    have hon : c.isEnabled n = true := by
      rcases (mem_askedFor_capture hc hco p).1 hn with hn | ⟨-, hn⟩
      · exact hco.explicit n hn
      · exact hn
    refine ⟨(mem_recordedModules hc hco p).2 hon, ?_⟩
    rw [← isModule_congr hdecl n]
    exact isModule_of_isEnabled hon
  constructor
  · intro hsame hempty name
    by_contra hon
    have hin := (hmem name).2 (.inr ⟨hempty, by simpa using hon⟩)
    rw [hsame, hempty] at hin
    exact NameSet.not_mem_empty name hin
  · intro hnone
    refine NameSet.ext_mem fun name => (hmem name).trans (or_iff_left ?_)
    rintro ⟨hempty, hon⟩
    rw [hnone hempty name] at hon
    cases hon

end

/-- A state that editing leads to is restored from its record, with the same modules enabled and the
same asked for, exactly if its flags that stay set are satisfied and there are modules that were asked
for, if any is enabled. -/
theorem applyTo_capture_iff (sourceRoot : String) (modules : List Module) (headers : List Header)
    (lists : List ValueList) (p : Project) (ops : List Operation)
    (hops : ∀ op ∈ ops, op.isEdit = true) :
    let fresh := build sourceRoot modules headers lists
    let c := fresh.run ops
    let restored := ((p.capture c).applyTo fresh).2
    ((∀ name, restored.isEnabled name = c.isEnabled name) ∧ restored.explicit = c.explicit)
      ↔ Satisfied c ∧ (c.explicit = .empty → ∀ name, c.isEnabled name = false) := by
  intro fresh c restored
  have hbuilt : c.IsBuilt := (isBuilt_build sourceRoot modules headers lists).run ops
  have hco : c.Coherent :=
    (coherent_build sourceRoot modules headers lists).run (isBuilt_build ..) ops
  have hdecl : c.declared = fresh.declared := declared_run fresh ops
  have hidle : fresh.Idle := isEnabled_build sourceRoot modules headers lists
  have hflags : FlagsFrom fresh c := (flagsFrom_self fresh).run hops
  exact and_congr (isEnabled_applyTo_capture_iff hbuilt hco hdecl hidle hflags p)
    (explicit_applyTo_capture_iff hbuilt hco hdecl hidle p)

/-! ## A flag that requires a module -/

/-- A module that lists no dependencies. -/
def plainModule (name : String) (configuration : Option String) : Module where
  name
  depends := []
  configuration
  category := ""
  hw := []
  enabled := false
  constants := .empty
  description := ""
  supports := none
  harvard := none
  definedIn := ""

/-- A set flag that requires the module `dma`. -/
def dmaFlag : Parameter where
  name := "CONFIG_USE_DMA"
  value := "1"
  type := .boolean
  min := none
  max := none
  long := false
  unsigned := false
  valueList := none
  conditionalDeps := ["dma"]
  supports := none
  brief := ""
  description := ""
  extra := .empty
  span := ⟨0, 0⟩

/-- A module `ser` with the flag in its header, and the module that the flag requires. -/
def dmaTree : Catalog :=
  build "" [plainModule "ser" (some "cfg_ser.h"), plainModule "dma" none]
    [⟨"cfg_ser.h", [dmaFlag], by simp, ""⟩] []

/-- As long as the required module is not unselected, the state is restored. -/
theorem restored_dmaTree_select :
    (∀ op ∈ [Operation.select "ser"], op.isEdit = true)
      ∧ (((default : Project).capture (dmaTree.run [.select "ser"])).applyTo dmaTree).2.explicit
        = (dmaTree.run [.select "ser"]).explicit := by
  have hops : ∀ op ∈ [Operation.select "ser"], op.isEdit = true := by simp [Operation.isEdit]
  refine ⟨hops, ((applyTo_capture_iff "" _ _ _ default _ hops).2 ⟨?_, ?_⟩).2⟩
  · intro user h q _ hh hq _ dep hdep _
    obtain ⟨path, -, hpath⟩ := Option.bind_eq_some_iff.1 hh
    have hheaders : (dmaTree.run [.select "ser"]).headers = dmaTree.headers := by cbv
    have hlookup : dmaTree.headers.get? path = some h := by
      rw [← hheaders]
      exact hpath
    cases List.mem_singleton.1 (NameMap.get?_eq_some_iff.1 hlookup)
    obtain rfl : q = dmaFlag := List.mem_singleton.1 hq
    obtain rfl : dep = "dma" := List.mem_singleton.1 hdep
    show (dmaTree.run [.select "ser"]).isEnabled "dma" = true
    cbv
  · intro hempty
    have hser : (dmaTree.run [.select "ser"]).isExplicit "ser" = true := by cbv
    exact absurd (hempty ▸ hser : _) (NameSet.not_mem_empty "ser")

/-- Once it is unselected, restoring enables it again. -/
theorem not_restored_dmaTree_unselect :
    ¬ ((∀ name,
        (((default : Project).capture (dmaTree.run [.select "ser", .unselect "dma"])).applyTo
          dmaTree).2.isEnabled name
          = (dmaTree.run [.select "ser", .unselect "dma"]).isEnabled name)
      ∧ (((default : Project).capture (dmaTree.run [.select "ser", .unselect "dma"])).applyTo
          dmaTree).2.explicit
          = (dmaTree.run [.select "ser", .unselect "dma"]).explicit) := by
  have hoff : (dmaTree.run [.select "ser", .unselect "dma"]).isEnabled "dma" = false := by cbv
  have hon : (((default : Project).capture (dmaTree.run [.select "ser", .unselect "dma"])).applyTo
      dmaTree).2.isEnabled "dma" = true := by cbv
  rintro ⟨hsame, -⟩
  rw [hsame, hoff] at hon
  cases hon

end Project

end Configurator
