import Configurator.Proofs.Catalog.Coherence
import Configurator.Proofs.Catalog.Parameters
import Configurator.Proofs.NameMap

/-!
# Restoring recorded values

A project restores values while nothing is enabled, so each value is given to its own parameter and
nothing follows from it. The recorded values are one list (`Project.recorded`) that names no parameter
twice, and restoring is a fold over it: what a parameter is afterwards only depends on its own entry
(`parameter_restoreValues`). Recording goes the other way, from the headers of enabled modules to
entries of that list (`mem_recorded_capture`).
-/

namespace Configurator

/-! ## Maps made of lists -/

theorem NameMap.get?_ofList_of_mem {α : Type} {es : List (String × α)} {name : String} {value : α}
    (hmem : (name, value) ∈ es) (honly : ∀ v, (name, v) ∈ es → v = value) :
    (ofList es).get? name = some value := by
  have key : ∀ m : NameMap α,
      m.get? name = some value ∨ (name, value) ∈ es →
      (es.foldl (fun m e => m.insert e.1 e.2) m).get? name = some value := by
    clear hmem
    induction es with
    | nil =>
        intro m h
        exact h.resolve_right (by simp)
    | cons e es ih =>
        intro m h
        refine ih (fun v hv => honly v (List.mem_cons_of_mem _ hv)) _ ?_
        rw [NameMap.get?_insert]
        by_cases hname : e.1 = name
        · refine .inl ?_
          rw [if_pos hname, honly e.2 (hname ▸ List.mem_cons_self)]
        · rw [if_neg hname]
          rcases h with h | h
          · exact .inl h
          · refine .inr (List.mem_of_ne_of_mem (fun heq => hname ?_) h)
            rw [← heq]
  exact key .empty (.inr hmem)

namespace Catalog

variable {c d : Catalog}

/-! ## Catalogues with nothing enabled -/

/-- Whether nothing is enabled. -/
def Idle (c : Catalog) : Prop :=
  ∀ name, c.isEnabled name = false

theorem Idle.owners_eq_nil (hc : c.Idle) (configuration : String) : c.owners configuration = [] := by
  have hnone : c.enabledModules = [] := by
    refine List.filter_eq_nil_iff.2 ?_
    intro m hm he
    obtain ⟨name, hname⟩ := NameMap.mem_values_iff.1 hm
    have hon := isEnabled_iff.2 ⟨m, hname, he⟩
    rw [hc name] at hon
    cases hon
  rw [owners, hnone]
  rfl

/-- While nothing is enabled, nothing follows from a new value. -/
theorem Idle.setParameter_eq_ok (hc : c.Idle) {configuration name value : String} {change : Change}
    (h : c.setParameter configuration name value = .ok (change, d)) :
    ∃ old new, c.parameter configuration name = .ok old
      ∧ old.accept (old.valueList.bind c.lists.get?) value = .ok new
      ∧ d = c.withParameter configuration name new := by
  obtain ⟨old, new, e, hold, hnew, rfl, hd⟩ := Catalog.setParameter_eq_ok h
  have hidle : (c.withParameter configuration name new).Idle := hc
  have hquiet : (c.withParameter configuration name new).IsQuiet configuration old new :=
    .inr (.inr (.inl (hidle.owners_eq_nil configuration)))
  refine ⟨old, new, hold, hnew, ?_⟩
  rcases hd with ⟨-, rfl⟩ | ⟨hloud, -⟩ | ⟨hloud, -⟩
  · rfl
  · exact absurd hquiet hloud
  · exact absurd hquiet hloud

end Catalog

/-! ## Restoring one value -/

/-- A parameter after its recorded value was given to it: a value that it does not take changes
nothing. -/
def Parameter.restored (p : Parameter) (choices : Option ValueList) (value : String) : Parameter :=
  match p.accept choices value with
  | .ok new => new
  | .error _ => p

theorem Parameter.declared_restored (p : Parameter) (choices : Option ValueList) (value : String) :
    (p.restored choices value).declared = p.declared := by
  unfold restored
  split
  · next new hnew => exact declared_accept hnew
  · rfl

namespace Project

open Catalog

variable {state : List String × Catalog}

/-- Restoring a value puts the restored parameter at its place, if there is one. -/
theorem restoreValue_snd (hidle : state.2.Idle) (path name value : String) :
    (restoreValue state path name value).2 = state.2
      ∨ ∃ old new, state.2.parameter path name = .ok old
          ∧ old.accept (old.valueList.bind state.2.lists.get?) value = .ok new
          ∧ (restoreValue state path name value).2 = state.2.withParameter path name new := by
  rw [restoreValue_eq]
  split
  · next o d hok =>
    obtain ⟨old, new, hold, hnew, rfl⟩ := hidle.setParameter_eq_ok hok
    exact .inr ⟨old, new, hold, hnew, rfl⟩
  · exact .inl rfl

theorem parameter_restoreValue_self (hidle : state.2.Idle) {path name value : String}
    {p : Parameter} (hp : state.2.parameter path name = .ok p) :
    (restoreValue state path name value).2.parameter path name
      = .ok (p.restored (p.valueList.bind state.2.lists.get?) value) := by
  rw [restoreValue_eq]
  unfold Parameter.restored
  cases hnew : p.accept (p.valueList.bind state.2.lists.get?) value with
  | error rejection =>
      rw [setParameter_of_error hp hnew]
      exact hp
  | ok new =>
      obtain ⟨⟨change, d⟩, hok⟩ := setParameter_of_ok hp hnew
      obtain ⟨old, new', hold, hnew', rfl⟩ := hidle.setParameter_eq_ok hok
      rw [hp, Except.ok.injEq] at hold
      subst hold
      rw [hnew, Except.ok.injEq] at hnew'
      subst hnew'
      rw [hok]
      exact parameter_withParameter_self hp (Parameter.declared_accept hnew)

theorem parameter_restoreValue_of_ne (hidle : state.2.Idle) {path name value path' name' : String}
    (hne : (path, name) ≠ (path', name')) :
    (restoreValue state path name value).2.parameter path' name' = state.2.parameter path' name' := by
  rcases restoreValue_snd hidle path name value with heq | ⟨old, new, -, -, heq⟩
  · rw [heq]
  · rw [heq, parameter_withParameter_of_ne hne]

/-- What restoring values leaves as it is. -/
structure OnlyValues (c d : Catalog) : Prop where
  declared : d.declared = c.declared
  modules : d.modules = c.modules
  explicit : d.explicit = c.explicit

theorem OnlyValues.trans {c d e : Catalog} (h : OnlyValues c d) (h' : OnlyValues d e) :
    OnlyValues c e :=
  ⟨h'.declared.trans h.declared, h'.modules.trans h.modules, h'.explicit.trans h.explicit⟩

theorem OnlyValues.idle {c d : Catalog} (h : OnlyValues c d) (hc : c.Idle) : d.Idle := by
  intro name
  have hname := hc name
  simpa only [isEnabled, module?, h.modules] using hname

theorem onlyValues_restoreValue (hidle : state.2.Idle) (path name value : String) :
    OnlyValues state.2 (restoreValue state path name value).2 := by
  rcases restoreValue_snd hidle path name value with heq | ⟨old, new, hold, hnew, heq⟩
  · rw [heq]
    exact ⟨rfl, rfl, rfl⟩
  · rw [heq]
    exact ⟨declared_withParameter hold (Parameter.declared_accept hnew), rfl, rfl⟩

/-! ## Restoring all values -/

/-- The recorded values, each with the path and the name of its parameter. -/
def recorded (p : Project) : List ((String × String) × String) :=
  p.parameters.entries.flatMap fun e => e.2.entries.map fun v => ((e.1, v.1), v.2)

/-- Restores one entry of the list. -/
def restoreEntry (state : List String × Catalog) (e : (String × String) × String) :
    List String × Catalog :=
  restoreValue state e.1.1 e.1.2 e.2

theorem restoreValues_eq (p : Project) (c : Catalog) :
    p.restoreValues c = p.recorded.foldl restoreEntry ([], c) := by
  rw [restoreValues, recorded, List.foldl_flatMap]
  simp only [List.foldl_map]
  rfl

theorem pairwise_ne_of_sorted {α : Type} (m : NameMap α) :
    m.entries.Pairwise fun a b => a.1 ≠ b.1 := by
  refine m.sorted.imp fun {a b} hlt heq => ?_
  rw [heq] at hlt
  exact String.lt_irrefl _ hlt

/-- No parameter is recorded twice. -/
theorem nodup_recorded (p : Project) : (p.recorded.map (·.1)).Nodup := by
  rw [List.Nodup, List.pairwise_map, recorded, List.pairwise_flatMap]
  refine ⟨fun e _ => ?_, (pairwise_ne_of_sorted _).imp fun hne x hx y hy heq => ?_⟩
  · rw [List.pairwise_map]
    exact (pairwise_ne_of_sorted _).imp fun hne heq => hne (congrArg (·.2) heq)
  · obtain ⟨v, -, rfl⟩ := List.mem_map.1 hx
    obtain ⟨w, -, rfl⟩ := List.mem_map.1 hy
    exact hne (congrArg (·.1) heq)

theorem onlyValues_foldl (hidle : state.2.Idle) (es : List ((String × String) × String)) :
    OnlyValues state.2 (es.foldl restoreEntry state).2 := by
  induction es generalizing state with
  | nil => exact ⟨rfl, rfl, rfl⟩
  | cons e es ih =>
      have hone := onlyValues_restoreValue hidle e.1.1 e.1.2 e.2
      exact hone.trans (ih (hone.idle hidle))

theorem onlyValues_restoreValues {c : Catalog} (hidle : c.Idle) (p : Project) :
    OnlyValues c (p.restoreValues c).2 := by
  rw [restoreValues_eq]
  have hstart : (([], c) : List String × Catalog).2.Idle := hidle
  exact onlyValues_foldl hstart p.recorded

theorem parameter_foldl_of_not_mem {path name : String} {es : List ((String × String) × String)}
    (hidle : state.2.Idle) (hnot : (path, name) ∉ es.map (·.1)) :
    (es.foldl restoreEntry state).2.parameter path name = state.2.parameter path name := by
  induction es generalizing state with
  | nil => rfl
  | cons e es ih =>
      rw [List.map_cons, List.mem_cons, not_or] at hnot
      obtain ⟨hne, hnot⟩ := hnot
      have hone : OnlyValues state.2 (restoreEntry state e).2 := onlyValues_restoreValue hidle ..
      rw [List.foldl_cons, ih (hone.idle hidle) hnot]
      exact parameter_restoreValue_of_ne hidle (Ne.symm hne)

theorem parameter_foldl_of_mem {path name value : String} {p : Parameter}
    {es : List ((String × String) × String)} (hidle : state.2.Idle)
    (hnodup : (es.map (·.1)).Nodup) (hmem : ((path, name), value) ∈ es)
    (hp : state.2.parameter path name = .ok p) :
    (es.foldl restoreEntry state).2.parameter path name
      = .ok (p.restored (p.valueList.bind state.2.lists.get?) value) := by
  induction es generalizing state with
  | nil => simp at hmem
  | cons e es ih =>
      obtain ⟨hnot, hnodup⟩ := List.nodup_cons.1 hnodup
      have hone : OnlyValues state.2 (restoreEntry state e).2 := onlyValues_restoreValue hidle ..
      rw [List.foldl_cons]
      rcases List.mem_cons.1 hmem with rfl | hmem
      · rw [parameter_foldl_of_not_mem (hone.idle hidle) hnot]
        exact parameter_restoreValue_self hidle hp
      · have hne : e.1 ≠ (path, name) := fun heq =>
          hnot (List.mem_map.2 ⟨_, hmem, heq.symm⟩)
        have hlists : (restoreEntry state e).2.lists = state.2.lists := lists_congr hone.declared
        rw [← hlists]
        refine ih (hone.idle hidle) hnodup hmem ?_
        exact (parameter_restoreValue_of_ne hidle hne).trans hp

/-- Restoring values restores each recorded parameter from its own entry. -/
theorem parameter_restoreValues {c : Catalog} (hidle : c.Idle) {p : Project}
    {path name value : String} {old : Parameter} (hmem : ((path, name), value) ∈ p.recorded)
    (hold : c.parameter path name = .ok old) :
    (p.restoreValues c).2.parameter path name
      = .ok (old.restored (old.valueList.bind c.lists.get?) value) := by
  rw [restoreValues_eq]
  have hstart : (([], c) : List String × Catalog).2.Idle := hidle
  exact parameter_foldl_of_mem hstart (nodup_recorded p) hmem hold

/-! ## Recording values -/

theorem mem_valuesOf {h : Header} {q : Parameter} (hq : q ∈ h.params)
    (htype : q.type ≠ .autoenabled) : (valuesOf h).get? q.name = some q.rendered := by
  refine NameMap.get?_ofList_of_mem ?_ fun v hv => ?_
  · refine List.mem_map.2 ⟨q, List.mem_filter.2 ⟨hq, ?_⟩, rfl⟩
    simpa using htype
  · obtain ⟨r, hr, heq⟩ := List.mem_map.1 hv
    obtain ⟨hname, rfl⟩ := Prod.mk.inj heq
    rw [List.inj_on_of_nodup_map h.names_nodup (List.mem_filter.1 hr).1 hq hname]

/-- Headers stand under their own paths. -/
theorem path_eq_of_isBuilt {c : Catalog} (hc : c.IsBuilt) {path : String} {h : Header}
    (hh : c.headers.get? path = some h) : h.path = path := by
  obtain ⟨sourceRoot, modules, headers, lists, hdecl⟩ := hc
  obtain ⟨h', hh', heq⟩ := exists_header hdecl hh
  obtain ⟨k, -, hk⟩ := List.mem_map.1 (NameMap.mem_of_get?_ofList hh')
  obtain ⟨hpath, rfl⟩ := Prod.mk.inj hk
  exact (congrArg Header.path heq).symm.trans hpath

/-- Capturing records the value of each parameter of an enabled module's header, those apart that
follow a module. -/
theorem mem_recorded_capture {c : Catalog} (hc : c.IsBuilt) (p : Project) {path name : String}
    {q : Parameter} (howner : c.owners path ≠ []) (hget : c.parameter path name = .ok q)
    (htype : q.type ≠ .autoenabled) : ((path, name), q.rendered) ∈ (p.capture c).recorded := by
  obtain ⟨user, m, hm, he, hpath⟩ := (owners_ne_nil_iff hc).1 howner
  obtain ⟨h, hh, hget⟩ := parameter_eq_ok_iff.1 hget
  obtain ⟨hq, rfl⟩ := Header.get?_eq_some_iff.1 hget
  have hheader : ∀ name k, c.moduleHeader? name = some k →
      c.headers.get? k.path = some k := by
    intro name k hk
    obtain ⟨path', -, hk'⟩ := Option.bind_eq_some_iff.1 hk
    rwa [path_eq_of_isBuilt hc hk']
  have hentry : (p.capture c).parameters.get? path = some (valuesOf h) := by
    refine NameMap.get?_ofList_of_mem ?_ fun v hv => ?_
    · refine List.mem_filterMap.2 ⟨m.name, List.mem_map.2 ⟨m, ?_, rfl⟩, ?_⟩
      · exact List.mem_filter.2 ⟨NameMap.mem_values_iff.2 ⟨user, hm⟩, he⟩
      · rw [hc.name_eq hm, moduleHeader?, hm, Option.bind_some, hpath, Option.bind_some, hh,
          Option.map_some, path_eq_of_isBuilt hc hh]
    · obtain ⟨name, -, hname⟩ := List.mem_filterMap.1 hv
      obtain ⟨k, hk, heq⟩ := Option.map_eq_some_iff.1 hname
      obtain ⟨rfl, rfl⟩ := Prod.mk.inj heq
      rw [hheader name k hk, Option.some.injEq] at hh
      rw [hh]
  refine List.mem_flatMap.2 ⟨(path, valuesOf h), NameMap.get?_eq_some_iff.1 hentry, ?_⟩
  exact List.mem_map.2 ⟨_, NameMap.get?_eq_some_iff.1 (mem_valuesOf hq htype), rfl⟩

end Project

end Configurator
