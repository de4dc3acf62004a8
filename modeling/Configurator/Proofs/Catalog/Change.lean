import Configurator.Proofs.Catalog.Flags
import Configurator.Proofs.Catalog.Orphans

/-!
# Changes of parameters

Giving a parameter a value changes the value and suffixes of that parameter and of no other, and
disables nothing. What it reports says exactly what followed: the modules that it enabled, and those that
a flag of an enabled module required until it was turned off and that nothing needs any more, which it
leaves enabled (`setParameter_spec`). A value that is refused changes nothing.
-/

namespace Configurator.Catalog

variable {c d : Catalog} {configuration name value : String} {change : Change} {old new : Parameter}

/-! ## The parameter -/

/-- What a parameter takes is all that changes in the headers. The change tells it from what it was. -/
theorem headers_setParameter (h : c.setParameter configuration name value = .ok (change, d)) :
    ∃ old new, c.parameter configuration name = .ok old
      ∧ old.accept (old.valueList.bind c.lists.get?) value = .ok new
      ∧ d.headers = (c.withParameter configuration name new).headers
      ∧ change.oldValue = old.value ∧ change.newValue = new.value := by
  obtain ⟨old, new, e, refreshed, hold, hnew, rfl, rfl, hcases⟩ := setParameter_change h
  refine ⟨old, new, hold, hnew, ?_⟩
  rcases hcases with ⟨-, rfl, rfl⟩ | ⟨-, -, rfl, rfl⟩ | ⟨-, -, rfl, rfl⟩
  · exact ⟨rfl, rfl, rfl⟩
  · exact ⟨((sameGraph_pull _ _).trans (sameGraph_refreshAll _ _)).headers, rfl, rfl⟩
  · exact ⟨(sameGraph_refreshAll _ _).headers, rfl, rfl⟩

/-- A parameter that was given a value has what it took. -/
theorem exists_parameter_setParameter
    (h : c.setParameter configuration name value = .ok (change, d)) :
    ∃ old new, c.parameter configuration name = .ok old
      ∧ old.accept (old.valueList.bind c.lists.get?) value = .ok new
      ∧ d.parameter configuration name = .ok new
      ∧ change.oldValue = old.value ∧ change.newValue = new.value := by
  obtain ⟨old, new, hold, hnew, hheaders, hvalues⟩ := headers_setParameter h
  have hself := parameter_withParameter_self hold (Parameter.declared_accept hnew)
  exact ⟨old, new, hold, hnew, by rwa [parameter, hheaders], hvalues⟩

theorem parameter_setParameter_of_ne (h : c.setParameter configuration name value = .ok (change, d))
    {path other : String} (hne : (configuration, name) ≠ (path, other)) :
    d.parameter path other = c.parameter path other := by
  obtain ⟨old, new, -, -, hheaders, -⟩ := headers_setParameter h
  have hother : (c.withParameter configuration name new).parameter path other
      = c.parameter path other := parameter_withParameter_of_ne hne
  rw [← hother, parameter, parameter, hheaders]

/-! ## The modules -/

/-- Giving a parameter a value enables the modules that it names, and changes nothing else about what is
enabled and asked for. -/
theorem isEnabled_setParameter (h : c.setParameter configuration name value = .ok (change, d)) :
    d.explicit = c.explicit
      ∧ (∀ other, d.isEnabled other = true ↔ c.isEnabled other = true ∨ other ∈ change.enabled)
      ∧ (∀ other ∈ change.enabled, c.isEnabled other = false) ∧ change.enabled.Nodup := by
  obtain ⟨old, new, e, refreshed, -, -, rfl, rfl, hcases⟩ := setParameter_change h
  have hbefore : ∀ names other, ((c.withParameter configuration name new).refreshAll names).isEnabled
      other = c.isEnabled other :=
    isEnabled_refreshAll _
  have hexplicit : ∀ names, ((c.withParameter configuration name new).refreshAll names).explicit
      = c.explicit :=
    explicit_refreshAll _
  rcases hcases with ⟨-, rfl, rfl⟩ | ⟨-, -, rfl, rfl⟩ | ⟨-, -, rfl, rfl⟩
  · exact ⟨rfl, fun other => (or_iff_left List.not_mem_nil).symm, by simp, List.nodup_nil⟩
  · refine ⟨(explicit_pull _ _).trans (hexplicit _), fun other => ?_, fun other hother => ?_,
      nodup_pull _ _⟩
    · rw [isEnabled_pull, hbefore]
    · rw [← hbefore, (isEnabled_of_mem_pull hother).2]
  · exact ⟨hexplicit _, fun other => by rw [hbefore, or_iff_left List.not_mem_nil], by simp,
      List.nodup_nil⟩

/-- Whether the value of a parameter turns a flag off for an enabled module. -/
def TurnsOff (c : Catalog) (configuration : String) (old new : Parameter) : Prop :=
  old.isSet = true ∧ new.isSet = false
    ∧ ∃ owner m, c.module? owner = some m ∧ m.enabled = true ∧ m.configuration = some configuration

/-- A flag that requires something is turned off exactly where something follows from a value for which
it is not set. -/
theorem turnsOff_iff (hbuilt : c.IsBuilt) :
    c.TurnsOff configuration old new ∧ old.conditionalDeps ≠ []
      ↔ ¬ (c.withParameter configuration name new).IsQuiet configuration old new
        ∧ new.isSet = false := by
  have howners : (c.withParameter configuration name new).owners configuration ≠ []
      ↔ ∃ owner m, c.module? owner = some m ∧ m.enabled = true
        ∧ m.configuration = some configuration := owners_ne_nil_iff hbuilt
  unfold TurnsOff IsQuiet
  rw [← howners]
  cases hold : old.isSet with
  | true =>
      have hboolean := Parameter.type_of_isSet hold
      cases hnew : new.isSet <;> simp [hboolean, and_comm]
  | false => cases hnew : new.isSet <;> simp

/-- What is named as released is what the flag required, is enabled without having been asked for, and is
not needed any more. -/
theorem mem_released_setParameter (hbuilt : c.IsBuilt)
    (h : c.setParameter configuration name value = .ok (change, d)) {old new : Parameter}
    (hold : c.parameter configuration name = .ok old)
    (hnew : old.accept (old.valueList.bind c.lists.get?) value = .ok new) (dep : String) :
    dep ∈ change.released
      ↔ c.TurnsOff configuration old new ∧ dep ∈ old.conditionalDeps ∧ d.isEnabled dep = true
        ∧ dep ∉ d.explicit ∧ ∀ user, d.isEnabled user = true → dep ∉ d.effectiveDeps user := by
  have hrequired : d.isRequired dep [] = false
      ↔ ∀ user, d.isEnabled user = true → dep ∉ d.effectiveDeps user := by
    rw [← Bool.not_eq_true, isRequired_iff (hbuilt.congr (declared_setParameter h))]
    simp
  have hturns : c.TurnsOff configuration old new ∧ old.conditionalDeps ≠ []
      ↔ ¬ (c.withParameter configuration name new).IsQuiet configuration old new
        ∧ new.isSet = false := turnsOff_iff hbuilt
  have hdeps : dep ∈ old.conditionalDeps → old.conditionalDeps ≠ [] := List.ne_nil_of_mem
  obtain ⟨old', new', e, refreshed, hold', hnew', rfl, -, hcases⟩ := setParameter_change h
  rw [hold, Except.ok.injEq] at hold'
  subst hold'
  rw [hnew, Except.ok.injEq] at hnew'
  subst hnew'
  rcases hcases with ⟨hquiet, -, rfl⟩ | ⟨-, hset, -, rfl⟩ | ⟨hloud, hunset, -, rfl⟩
  · refine iff_of_false List.not_mem_nil ?_
    rintro ⟨hoff, hdep, -⟩
    exact (hturns.1 ⟨hoff, hdeps hdep⟩).1 hquiet
  · refine iff_of_false List.not_mem_nil ?_
    rintro ⟨⟨-, hunset, -⟩, -⟩
    rw [hset] at hunset
    cases hunset
  · rw [List.mem_filter]
    simp only [isExplicit, Bool.and_eq_true, Bool.not_eq_true', hrequired, NameSet.mem_iff,
      Bool.not_eq_true, and_assoc]
    exact (and_iff_right (hturns.2 ⟨hloud, hunset⟩).1).symm

/-! ## The whole change -/

/-- What giving a parameter a value changes, and what it reports. -/
structure Changes (c : Catalog) (configuration name : String) (old new : Parameter)
    (change : Change) (d : Catalog) : Prop where
  declared : d.declared = c.declared
  before : c.parameter configuration name = .ok old
  after : d.parameter configuration name = .ok new
  record : { old with value := new.value, unsigned := new.unsigned, long := new.long } = new
  unsigned : old.unsigned = true → new.unsigned = true
  long : old.long = true → new.long = true
  values : change.oldValue = old.value ∧ change.newValue = new.value
  others : ∀ path other, (configuration, name) ≠ (path, other) →
    d.parameter path other = c.parameter path other
  explicit : d.explicit = c.explicit
  keeps : ∀ other, c.isEnabled other = true → d.isEnabled other = true
  mem_enabled : ∀ other, other ∈ change.enabled ↔ d.isEnabled other = true ∧ c.isEnabled other = false
  nodup_enabled : change.enabled.Nodup
  mem_released : ∀ dep, dep ∈ change.released
    ↔ c.TurnsOff configuration old new ∧ dep ∈ old.conditionalDeps ∧ d.isEnabled dep = true
      ∧ dep ∉ d.explicit ∧ ∀ user, d.isEnabled user = true → dep ∉ d.effectiveDeps user

theorem changes_setParameter (hbuilt : c.IsBuilt)
    (h : c.setParameter configuration name value = .ok (change, d)) :
    ∃ old new, c.Changes configuration name old new change d := by
  obtain ⟨old, new, hold, hnew, hafter, hvalues⟩ := exists_parameter_setParameter h
  obtain ⟨hunsigned, hlong⟩ := Parameter.suffixes_accept hnew
  obtain ⟨hexplicit, henabled, hnone, hnodup⟩ := isEnabled_setParameter h
  refine ⟨old, new, declared_setParameter h, hold, hafter,
    Parameter.eq_of_declared (Parameter.declared_accept hnew) rfl rfl rfl, hunsigned, hlong, hvalues,
    fun path other hne => parameter_setParameter_of_ne h hne, hexplicit,
    fun other hon => (henabled other).2 (.inl hon), fun other => ?_, hnodup,
    mem_released_setParameter hbuilt h hold hnew⟩
  constructor
  · intro hmem
    exact ⟨(henabled other).2 (.inr hmem), hnone other hmem⟩
  · rintro ⟨hon, hoff⟩
    refine ((henabled other).1 hon).resolve_left fun hbefore => ?_
    rw [hoff] at hbefore
    cases hbefore

/-- What an enabled module does not depend on any more was required by the flag that was turned off. -/
theorem Changes.turnsOff (h : c.Changes configuration name old new change d) {user dep : String}
    (huser : c.isEnabled user = true) (hdep : dep ∈ c.effectiveDeps user)
    (hgone : dep ∉ d.effectiveDeps user) :
    c.TurnsOff configuration old new ∧ dep ∈ old.conditionalDeps := by
  obtain ⟨m, hm, hreason⟩ := mem_effectiveDeps_iff.1 hdep
  obtain ⟨m', hm', hdecl⟩ := exists_module? h.declared.symm hm
  rcases hreason with hlisted | ⟨path, flag, p, hpath, hp, hset, hrequired⟩
  · exact absurd (mem_effectiveDeps_iff.2 ⟨m', hm', .inl (depends_eq hdecl ▸ hlisted)⟩) hgone
  · have hpath' : m'.configuration = some path := (configuration_eq hdecl).trans hpath
    by_cases hsame : (configuration, name) = (path, flag)
    · obtain ⟨rfl, rfl⟩ := Prod.mk.inj hsame
      have hbefore := h.before
      rw [hp, Except.ok.injEq] at hbefore
      subst hbefore
      have hdeps : p.conditionalDeps = new.conditionalDeps := congrArg (·.conditionalDeps) h.record
      refine ⟨⟨hset, ?_, user, m, hm, ?_, hpath⟩, hrequired⟩
      · by_contra hstays
        exact hgone (mem_effectiveDeps_iff.2 ⟨m', hm', .inr ⟨configuration, name, new, hpath', h.after,
          by simpa using hstays, hdeps ▸ hrequired⟩⟩)
      · obtain ⟨m'', hm'', hon⟩ := isEnabled_iff.1 huser
        rw [hm, Option.some.injEq] at hm''
        rwa [hm'']
    · have hafter := h.others path flag hsame
      rw [hp] at hafter
      exact absurd (mem_effectiveDeps_iff.2
        ⟨m', hm', .inr ⟨path, flag, p, hpath', hafter, hset, hrequired⟩⟩) hgone

/-- In every state that a catalogue can get into, giving a parameter a value fails and leaves the
catalogue as it was, or changes and reports what `Changes` says. -/
theorem setParameter_spec (sourceRoot : String) (modules : List Module) (headers : List Header)
    (lists : List ValueList) (ops : List Operation) (configuration name value : String) :
    let c := (build sourceRoot modules headers lists).run ops
    (∀ e, c.setParameter configuration name value = .error e →
        c.step (.setParameter configuration name value) = c)
      ∧ ∀ change d, c.setParameter configuration name value = .ok (change, d) →
        c.step (.setParameter configuration name value) = d
          ∧ ∃ old new, c.Changes configuration name old new change d := by
  intro c
  have hbuilt : c.IsBuilt := (isBuilt_build ..).run ops
  refine ⟨fun e herror => ?_, fun change d hok => ⟨?_, changes_setParameter hbuilt hok⟩⟩
  · exact (Update.checksFirst_setParameter _ _ _).leaves_of_error herror
  · exact Update.leaves_of_ok hok

/-- The flag is set while its owner `spi` is enabled; then it takes no word that is neither for true nor
for false, and is turned off. -/
theorem setParameter_spec_busModules :
    let c := (build "" busModules [busHeader] []).run
      [.select "spi", .setParameter "cfg_bus.h" "CONFIG_FAST" "on"]
    (∃ e, c.setParameter "cfg_bus.h" "CONFIG_FAST" "maybe" = .error e
        ∧ c.step (.setParameter "cfg_bus.h" "CONFIG_FAST" "maybe") = c)
      ∧ ∃ change d, c.setParameter "cfg_bus.h" "CONFIG_FAST" "off" = .ok (change, d)
        ∧ c.step (.setParameter "cfg_bus.h" "CONFIG_FAST" "off") = d
        ∧ ∃ old new, c.Changes "cfg_bus.h" "CONFIG_FAST" old new change d := by
  intro c
  have hspec := setParameter_spec "" busModules [busHeader] []
    [.select "spi", .setParameter "cfg_bus.h" "CONFIG_FAST" "on"] "cfg_bus.h" "CONFIG_FAST"
  have hfresh : (build "" busModules [busHeader] []).parameter "cfg_bus.h" "CONFIG_FAST"
      = .ok (flagOn "CONFIG_FAST" ["fast.c", "irq"]) := rfl
  obtain ⟨flag, hflag, hdecl⟩ := exists_parameter (declared_run _ _).symm hfresh
  have htype : flag.type = .boolean := congrArg (·.type) hdecl
  have hmaybe : Parameter.booleanForm? "maybe" = none := by decide +kernel
  have hoff : Parameter.booleanForm? "off" = some "0" := by decide +kernel
  have hrefused : flag.accept (flag.valueList.bind c.lists.get?) "maybe" = .error .notBoolean := by
    simp [Parameter.accept, htype, hmaybe]
  have htaken : flag.accept (flag.valueList.bind c.lists.get?) "off"
      = .ok { flag with value := "0" } := by
    simp [Parameter.accept, htype, hoff]
  obtain ⟨⟨change, d⟩, hset⟩ := setParameter_of_ok hflag htaken
  have herror := setParameter_of_error hflag hrefused
  exact ⟨⟨_, herror, (hspec "maybe").1 _ herror⟩, change, d, hset, (hspec "off").2 change d hset⟩

end Configurator.Catalog
