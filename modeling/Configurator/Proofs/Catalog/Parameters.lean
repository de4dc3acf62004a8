import Configurator.Proofs.Catalog.Enabled

/-!
# Values and dependencies

A catalogue is asked for parameters by path and name. Here is what giving one of them another value
does to the others and to what modules depend on: that only changes for the modules that are bound to
the header, and only if the parameter is a flag that turns and requires something
(`effectiveDeps_withParameter`).
-/

namespace Configurator

theorem Parameter.type_of_isSet {p : Parameter} (h : p.isSet = true) : p.type = .boolean := by
  simp only [isSet, Bool.and_eq_true, decide_eq_true_eq] at h
  exact h.1

namespace Catalog

variable {c d : Catalog}

/-! ## Parameters of headers -/

/-- A parameter of a header in another state of the header. -/
theorem exists_get? {h k : Header} (heq : k.declared = h.declared) {name : String} {p : Parameter}
    (hp : h.get? name = some p) : ∃ q, k.get? name = some q ∧ q.declared = p.declared := by
  have hdecl : k.declared.get? name = some p.declared := by
    rw [heq, Header.get?_declared, hp]
    rfl
  rw [Header.get?_declared] at hdecl
  exact Option.map_eq_some_iff.1 hdecl

theorem parameter_eq_ok_iff {configuration name : String} {p : Parameter} :
    c.parameter configuration name = .ok p
      ↔ ∃ h, c.headers.get? configuration = some h ∧ h.get? name = some p := by
  unfold parameter
  cases hh : c.headers.get? configuration with
  | none => simp
  | some h =>
      cases hp : h.get? name with
      | none => simp [hp]
      | some q => simp [hp]

/-- A parameter in another state of the same tree. -/
theorem exists_parameter (h : c.declared = d.declared) {configuration name : String} {p : Parameter}
    (hp : c.parameter configuration name = .ok p) :
    ∃ p', d.parameter configuration name = .ok p' ∧ p'.declared = p.declared := by
  obtain ⟨k, hk, hget⟩ := parameter_eq_ok_iff.1 hp
  obtain ⟨k', hk', heq⟩ := exists_header h hk
  obtain ⟨p', hp', hpp⟩ := exists_get? heq hget
  exact ⟨p', parameter_eq_ok_iff.2 ⟨k', hk', hp'⟩, hpp⟩

theorem parameter_withParameter_self {configuration name : String} {old new : Parameter}
    (hold : c.parameter configuration name = .ok old) (hnew : new.declared = old.declared) :
    (c.withParameter configuration name new).parameter configuration name = .ok new := by
  obtain ⟨h, hh, hget⟩ := parameter_eq_ok_iff.1 hold
  refine parameter_eq_ok_iff.2 ⟨h.update name fun _ => new, ?_, ?_⟩
  · rw [withParameter, modifyHeader, NameMap.get?_modify, if_pos rfl, hh]
    rfl
  · have hname : old.name = name := (Header.get?_eq_some_iff.1 hget).2
    have hspan : old.span = new.span := (congrArg (·.span) hnew).symm
    have hnames : old.name = new.name := (congrArg (·.name) hnew).symm
    rw [Header.get?_update, hget, Option.map_some, if_pos hname, hspan, hnames]

theorem parameter_withParameter_of_ne {configuration name path other : String} {new : Parameter}
    (hne : (configuration, name) ≠ (path, other)) :
    (c.withParameter configuration name new).parameter path other = c.parameter path other := by
  unfold parameter withParameter modifyHeader
  rw [NameMap.get?_modify]
  by_cases hpath : path = configuration
  · subst hpath
    have hname : other ≠ name := fun h => hne (h ▸ rfl)
    rw [if_pos rfl]
    cases c.headers.get? path with
    | none => rfl
    | some h =>
        simp only [Option.map_some, Header.get?_update]
        cases hget : h.get? other with
        | none => rfl
        | some p =>
            have hp : p.name ≠ name := (Header.get?_eq_some_iff.1 hget).2 ▸ hname
            simp only [Option.map_some, if_neg hp]
  · rw [if_neg hpath]

theorem setParameter_of_error {configuration name value : String} {old : Parameter}
    {rejection : Rejection} (hold : c.parameter configuration name = .ok old)
    (herror : old.accept (old.valueList.bind c.lists.get?) value = .error rejection) :
    c.setParameter configuration name value = .error (.invalidValue name value rejection) := by
  rw [setParameter_eq, hold]
  simp only [bind, Except.bind, herror]

theorem setParameter_of_ok {configuration name value : String} {old new : Parameter}
    (hold : c.parameter configuration name = .ok old)
    (hnew : old.accept (old.valueList.bind c.lists.get?) value = .ok new) :
    ∃ result, c.setParameter configuration name value = .ok result := by
  rw [setParameter_eq, hold]
  simp only [bind, Except.bind, hnew]
  exact ⟨_, rfl⟩

/-! ## What a new value changes -/

theorem activeDeps_congr {p q : Parameter} (hdecl : q.declared = p.declared)
    (h : p.type ≠ .boolean ∨ p.conditionalDeps = [] ∨ p.isSet = q.isSet) :
    q.activeDeps = p.activeDeps := by
  have htype : q.type = p.type := congrArg (·.type) hdecl
  have hdeps : q.conditionalDeps = p.conditionalDeps := congrArg (·.conditionalDeps) hdecl
  unfold Parameter.activeDeps
  rw [hdeps]
  rcases h with h | h | h
  · simp [Parameter.isSet, htype, h]
  · simp [h]
  · rw [h]

/-- Changing a header leaves a module's dependencies alone, unless the module is bound to the header
and other modules are required by its set parameters. -/
theorem effectiveDeps_modifyHeader {path : String} {f : Header → Header} {name : String}
    (h : ∀ m k, c.module? name = some m → m.configuration = some path → c.headers.get? path = some k →
      (f k).params.flatMap (·.activeDeps) = k.params.flatMap (·.activeDeps)) :
    (c.modifyHeader path f).effectiveDeps name = c.effectiveDeps name := by
  have hmodule : (c.modifyHeader path f).module? name = c.module? name := rfl
  unfold effectiveDeps conditionalDeps moduleHeader?
  rw [hmodule]
  cases hm : c.module? name with
  | none => rfl
  | some m =>
      simp only [Option.bind_some]
      cases hpath : m.configuration with
      | none => rfl
      | some other =>
          have hget : (c.modifyHeader path f).headers.get? other
              = if other = path then (c.headers.get? other).map f else c.headers.get? other :=
            NameMap.get?_modify _ _ _ _
          simp only [Option.bind_some, hget]
          by_cases hother : other = path
          · subst hother
            cases hk : c.headers.get? other with
            | none => simp
            | some k => simp [h m k hm hpath hk]
          · rw [if_neg hother]

theorem flatMap_activeDeps_mapParams {h : Header} {f : Parameter → Parameter}
    (hf : ∀ p ∈ h.params, (f p).activeDeps = p.activeDeps) :
    (h.mapParams f).params.flatMap (·.activeDeps) = h.params.flatMap (·.activeDeps) := by
  rw [Header.mapParams, List.flatMap_map]
  exact List.flatMap_congr hf

theorem mem_owners (hbuilt : c.IsBuilt) {configuration name : String} :
    name ∈ c.owners configuration
      ↔ ∃ m, c.module? name = some m ∧ m.enabled = true ∧ m.configuration = some configuration := by
  simp only [owners, enabledModules, List.mem_map, List.mem_filter, NameMap.mem_values_iff,
    decide_eq_true_eq]
  constructor
  · rintro ⟨m, ⟨⟨⟨key, hkey⟩, he⟩, hpath⟩, rfl⟩
    rw [hbuilt.name_eq hkey]
    exact ⟨m, hkey, he, hpath⟩
  · rintro ⟨m, hm, he, hpath⟩
    exact ⟨m, ⟨⟨⟨name, hm⟩, he⟩, hpath⟩, hbuilt.name_eq hm⟩

/-- A header has owners when an enabled module is bound to it. -/
theorem owners_ne_nil_iff (hbuilt : c.IsBuilt) {configuration : String} :
    c.owners configuration ≠ []
      ↔ ∃ owner m, c.module? owner = some m ∧ m.enabled = true
          ∧ m.configuration = some configuration := by
  rw [← List.isEmpty_eq_false_iff, List.isEmpty_eq_false_iff_exists_mem]
  exact exists_congr fun owner => mem_owners hbuilt

/-- A new value changes what a module depends on only if it is bound to the header, and something
follows from the value. -/
theorem effectiveDeps_withParameter {configuration name other : String} {old new : Parameter}
    (hold : c.parameter configuration name = .ok old) (hdecl : new.declared = old.declared)
    (h : (∀ m, c.module? other = some m → m.configuration ≠ some configuration)
      ∨ old.type ≠ .boolean ∨ old.conditionalDeps = [] ∨ old.isSet = new.isSet) :
    (c.withParameter configuration name new).effectiveDeps other = c.effectiveDeps other := by
  refine effectiveDeps_modifyHeader fun m k hm hpath hk => ?_
  have hquiet := h.resolve_left fun hnone => hnone m hm hpath
  refine flatMap_activeDeps_mapParams fun p hp => ?_
  split
  · next hname =>
    have hget : k.get? name = some p := Header.get?_eq_some_iff.2 ⟨hp, hname⟩
    simp only [parameter, hk, hget, Except.ok.injEq] at hold
    subst hold
    exact activeDeps_congr hdecl hquiet
  · rfl

/-! ## Dependencies by parameter -/

theorem isSet_iff {r : ParamRef} :
    c.isSet r = true ↔ ∃ p, c.parameter r.configuration r.name = .ok p ∧ p.isSet = true := by
  unfold isSet
  cases c.parameter r.configuration r.name <;> simp

/-- The parameters of the header that a module is bound to are those under the path of the header. -/
theorem exists_moduleHeader?_iff {user : String} {m : Module} (hm : c.module? user = some m)
    {P : Parameter → Prop} :
    (∃ h, c.moduleHeader? user = some h ∧ ∃ p ∈ h.params, P p)
      ↔ ∃ path name p, m.configuration = some path ∧ c.parameter path name = .ok p ∧ P p := by
  rw [moduleHeader?, hm, Option.bind_some]
  constructor
  · rintro ⟨h, hh, p, hp, hP⟩
    obtain ⟨path, hpath, hk⟩ := Option.bind_eq_some_iff.1 hh
    exact ⟨path, p.name, p, hpath,
      parameter_eq_ok_iff.2 ⟨h, hk, Header.get?_eq_some_iff.2 ⟨hp, rfl⟩⟩, hP⟩
  · rintro ⟨path, name, p, hpath, hp, hP⟩
    obtain ⟨h, hh, hget⟩ := parameter_eq_ok_iff.1 hp
    exact ⟨h, Option.bind_eq_some_iff.2 ⟨path, hpath, hh⟩, p, (Header.get?_eq_some_iff.1 hget).1, hP⟩

/-- A module depends on what it lists and on what the set flags of its header require. -/
theorem mem_effectiveDeps_iff {user dep : String} :
    dep ∈ c.effectiveDeps user
      ↔ ∃ m, c.module? user = some m ∧ (dep ∈ m.depends
          ∨ ∃ path name p, m.configuration = some path ∧ c.parameter path name = .ok p
              ∧ p.isSet = true ∧ dep ∈ p.conditionalDeps) := by
  rw [mem_effectiveDeps]
  refine exists_congr fun m => and_congr_right fun hm => or_congr_right ?_
  rw [mem_conditionalDeps, exists_moduleHeader?_iff hm]

/-- Setting a flag adds what it requires to the dependencies of the modules bound to its header. -/
theorem mem_effectiveDeps_withParameter {configuration name user dep : String} {old new : Parameter}
    (hold : c.parameter configuration name = .ok old) (hdecl : new.declared = old.declared)
    (hset : new.isSet = true) :
    dep ∈ (c.withParameter configuration name new).effectiveDeps user
      ↔ dep ∈ c.effectiveDeps user
        ∨ (∃ m, c.module? user = some m ∧ m.configuration = some configuration)
          ∧ dep ∈ old.conditionalDeps := by
  have hdeps : new.conditionalDeps = old.conditionalDeps := congrArg (·.conditionalDeps) hdecl
  have hself := parameter_withParameter_self hold hdecl
  have hmodule : (c.withParameter configuration name new).module? user = c.module? user := rfl
  rw [mem_effectiveDeps_iff, mem_effectiveDeps_iff, hmodule]
  constructor
  · rintro ⟨m, hm, hlisted | ⟨path, other, p, hpath, hp, hpset, hdep⟩⟩
    · exact .inl ⟨m, hm, .inl hlisted⟩
    · by_cases hsame : (configuration, name) = (path, other)
      · cases hsame
        rw [hself, Except.ok.injEq] at hp
        subst hp
        exact .inr ⟨⟨m, hm, hpath⟩, hdeps ▸ hdep⟩
      · rw [parameter_withParameter_of_ne hsame] at hp
        exact .inl ⟨m, hm, .inr ⟨path, other, p, hpath, hp, hpset, hdep⟩⟩
  · rintro (⟨m, hm, hlisted | ⟨path, other, p, hpath, hp, hpset, hdep⟩⟩ | ⟨⟨m, hm, hpath⟩, hdep⟩)
    · exact ⟨m, hm, .inl hlisted⟩
    · by_cases hsame : (configuration, name) = (path, other)
      · cases hsame
        rw [hold, Except.ok.injEq] at hp
        subst hp
        exact ⟨m, hm, .inr ⟨_, _, new, hpath, hself, hset, hdeps.symm ▸ hdep⟩⟩
      · rw [← parameter_withParameter_of_ne hsame] at hp
        exact ⟨m, hm, .inr ⟨path, other, p, hpath, hp, hpset, hdep⟩⟩
    · exact ⟨m, hm, .inr ⟨_, _, new, hpath, hself, hset, hdeps.symm ▸ hdep⟩⟩

/-! ## Equal headers -/

/-- States of one tree that agree on every parameter have the same headers. -/
theorem headers_eq_of_parameter (hdecl : c.declared = d.declared)
    (h : ∀ path name p q, c.parameter path name = .ok p → d.parameter path name = .ok q → p = q) :
    c.headers = d.headers := by
  have hparams : ∀ ps qs : List Parameter, ps.map Parameter.declared = qs.map Parameter.declared →
      (∀ p ∈ ps, ∀ q ∈ qs, p.name = q.name → p = q) → ps = qs := by
    intro ps
    induction ps with
    | nil =>
        intro qs hmap _
        exact (List.map_eq_nil_iff.1 hmap.symm).symm
    | cons p ps ih =>
        intro qs hmap hagree
        cases qs with
        | nil => cases hmap
        | cons q qs =>
            obtain ⟨hhead, htail⟩ := List.cons.inj hmap
            have hpq := hagree p List.mem_cons_self q List.mem_cons_self (congrArg (·.name) hhead)
            rw [hpq, ih qs htail fun p hp q hq =>
              hagree p (List.mem_cons_of_mem _ hp) q (List.mem_cons_of_mem _ hq)]
  refine NameMap.ext_get? fun path => ?_
  cases hk : c.headers.get? path with
  | none =>
      cases hk' : d.headers.get? path with
      | none => rfl
      | some k' =>
          obtain ⟨k, hk'', -⟩ := exists_header hdecl.symm hk'
          rw [hk] at hk''
          cases hk''
  | some k =>
      obtain ⟨k', hk', heq⟩ := exists_header hdecl hk
      rw [hk', Option.some.injEq]
      refine Header.ext (congrArg (·.path) heq).symm (hparams _ _ ?_ fun p hp q hq hname => ?_)
        (congrArg (·.source) heq).symm
      · rw [← Header.params_declared, ← Header.params_declared, heq]
      · exact h path p.name p q
          (parameter_eq_ok_iff.2 ⟨k, hk, Header.get?_eq_some_iff.2 ⟨hp, rfl⟩⟩)
          (parameter_eq_ok_iff.2 ⟨k', hk', Header.get?_eq_some_iff.2 ⟨hq, hname.symm⟩⟩)

end Catalog

end Configurator
