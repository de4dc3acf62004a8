import Mathlib
import Configurator.Proofs.Artifact.Rendering
import Configurator.Proofs.NameMap

/-!
# Parameters that follow modules

Before headers are written, their parameters of type autoenabled are made to show whether modules are
enabled. Each module that is bound to a header writes its own state into it, in the order of names, so
the last one decides (`Follows`). Where an enabled and a disabled module share a header this need not be
what is wanted, that some module which is bound to the header is enabled; and then the parameters are
counted as changed whenever this is done again, although nothing changes (`syncAutoenabled_spec`).
-/

namespace Configurator.Catalog

variable {c d : Catalog} {h : Header} {path : String} {m : Module}

/-! ## One header -/

@[simp] theorem enabledValue_inj {a b : Bool} : enabledValue a = enabledValue b ↔ a = b := by
  cases a <;> cases b <;> simp [enabledValue]

theorem withAutoenabled_withAutoenabled (value value' : String) (h : Header) :
    withAutoenabled value' (withAutoenabled value h) = withAutoenabled value' h := by
  refine Header.ext rfl ?_ rfl
  rw [Header.params_withAutoenabled, Header.params_withAutoenabled, Header.params_withAutoenabled,
    List.map_map]
  refine List.map_congr_left fun p _ => ?_
  by_cases htype : p.type = .autoenabled <;> simp [Header.autoenabledAt, htype]

/-- Of several modules that write their state into a header the last one decides. -/
theorem foldl_withAutoenabled_of_getLast? {ms : List Module} (hlast : ms.getLast? = some m)
    (h : Header) :
    ms.foldl (fun h m => withAutoenabled (enabledValue m.enabled) h) h
      = withAutoenabled (enabledValue m.enabled) h := by
  obtain ⟨init, rfl⟩ := List.getLast?_eq_some_iff.1 hlast
  rw [List.foldl_append, List.foldl_cons, List.foldl_nil]
  refine List.foldlRecOn (motive := fun k => withAutoenabled (enabledValue m.enabled) k
    = withAutoenabled (enabledValue m.enabled) h) init _ rfl fun k hk first _ => ?_
  rw [withAutoenabled_withAutoenabled, hk]

theorem countAutoenabled_eq_zero_iff {value : String} :
    countAutoenabled value h = 0 ↔ ∀ p ∈ h.params, p.type = .autoenabled → p.value = value := by
  simp [countAutoenabled, List.countP_eq_zero]

/-- Where nothing is counted as changed, nothing changes. -/
theorem withAutoenabled_of_count {value : String} (hcount : countAutoenabled value h = 0) :
    withAutoenabled value h = h := by
  rw [countAutoenabled_eq_zero_iff] at hcount
  refine Header.ext rfl ?_ rfl
  rw [Header.params_withAutoenabled]
  refine (List.map_congr_left fun p hp => ?_).trans (List.map_id' _)
  unfold Header.autoenabledAt
  split
  · next htype => rw [← hcount p hp htype]
  · rfl

/-! ## All headers -/

/-- The modules that are bound to a header, in the order of their names. -/
def boundTo (c : Catalog) (path : String) : List Module :=
  c.modules.values.filter (·.configuration = some path)

theorem mem_boundTo : m ∈ c.boundTo path ↔ m ∈ c.modules.values ∧ m.configuration = some path := by
  rw [boundTo, List.mem_filter, decide_eq_true_eq]

/-- What showing the state of the modules makes of a header. -/
def shown (c : Catalog) (path : String) (h : Header) : Header :=
  match (c.boundTo path).getLast? with
  | some m => withAutoenabled (enabledValue m.enabled) h
  | none => h

theorem get?_headers_syncAutoenabled (c : Catalog) (path : String) :
    c.syncAutoenabled.2.headers.get? path = (c.headers.get? path).map (c.shown path) := by
  rw [syncAutoenabled, get?_headers_foldl_syncModule, ← boundTo]
  refine congrArg (Option.map · _) (funext fun h => ?_)
  unfold shown
  split
  · next m hlast => exact foldl_withAutoenabled_of_getLast? hlast h
  · next hnone => rw [List.getLast?_eq_none_iff.1 hnone, List.foldl_nil]

/-- Only headers change. -/
theorem syncAutoenabled_snd (c : Catalog) :
    c.syncAutoenabled.2 = { c with headers := c.syncAutoenabled.2.headers } := by
  refine syncAutoenabled_induction (P := fun d => d = { c with headers := d.headers })
    (fun d path value hd => ?_) rfl
  rw [modifyHeader, hd]

theorem boundTo_syncAutoenabled (c : Catalog) (path : String) :
    c.syncAutoenabled.2.boundTo path = c.boundTo path := by
  rw [boundTo, boundTo, modules_syncAutoenabled]

/-- Showing the state of the modules once more changes nothing. -/
theorem syncAutoenabled_syncAutoenabled (c : Catalog) :
    c.syncAutoenabled.2.syncAutoenabled.2 = c.syncAutoenabled.2 := by
  have hshown : ∀ path h, c.shown path (c.shown path h) = c.shown path h := by
    intro path h
    unfold shown
    split
    · exact withAutoenabled_withAutoenabled _ _ h
    · rfl
  have hagain : ∀ path, c.syncAutoenabled.2.shown path = c.shown path := fun path => by
    unfold shown
    rw [boundTo_syncAutoenabled]
  have hheaders : c.syncAutoenabled.2.syncAutoenabled.2.headers = c.syncAutoenabled.2.headers := by
    refine NameMap.ext_get? fun path => ?_
    rw [get?_headers_syncAutoenabled, get?_headers_syncAutoenabled, Option.map_map, hagain]
    exact congrArg (Option.map · _) (funext (hshown path))
  rw [syncAutoenabled_snd c.syncAutoenabled.2, hheaders]

/-! ## Counting -/

/-- Whether the parameters that follow a module show its state. -/
def ShowsModule (c : Catalog) (m : Module) : Prop :=
  ∀ path, m.configuration = some path → ∀ h, c.headers.get? path = some h →
    ∀ p ∈ h.params, p.type = .autoenabled → p.value = enabledValue m.enabled

/-- A module counts no change exactly if its state is shown, and then changes nothing. -/
theorem syncModule_fst (state : Nat × Catalog) (m : Module) :
    state.1 ≤ (syncModule state m).1
      ∧ ((syncModule state m).1 = state.1 ↔ state.2.ShowsModule m) := by
  unfold syncModule ShowsModule
  cases hpath : m.configuration with
  | none => simp
  | some path =>
      cases hh : state.2.headers.get? path with
      | none => simp [hh]
      | some h => simp [hh, countAutoenabled_eq_zero_iff]

theorem syncModule_of_showsModule {state : Nat × Catalog} (hshows : state.2.ShowsModule m) :
    syncModule state m = state := by
  unfold syncModule
  cases hpath : m.configuration with
  | none => rfl
  | some path =>
      cases hh : state.2.headers.get? path with
      | none => simp [hh]
      | some h =>
          have hcount := countAutoenabled_eq_zero_iff.2 (hshows path hpath h hh)
          have hheaders : state.2.headers.modify path (withAutoenabled (enabledValue m.enabled))
              = state.2.headers := NameMap.modify_self fun k hk => by
            rw [hh, Option.some.injEq] at hk
            exact withAutoenabled_of_count (hk ▸ hcount)
          simp [hh, hcount, modifyHeader, hheaders]

theorem le_foldl_syncModule (ms : List Module) (state : Nat × Catalog) :
    state.1 ≤ (ms.foldl syncModule state).1 :=
  List.foldlRecOn (motive := fun after : Nat × Catalog => state.1 ≤ after.1) ms _ le_rfl
    fun after hle m _ => hle.trans (syncModule_fst after m).1

/-- No change is counted exactly if the state of every module is shown. -/
theorem foldl_syncModule_fst_iff (ms : List Module) (state : Nat × Catalog) :
    (ms.foldl syncModule state).1 = state.1 ↔ ∀ m ∈ ms, state.2.ShowsModule m := by
  induction ms with
  | nil => simp
  | cons m ms ih =>
      obtain ⟨hle, hcount⟩ := syncModule_fst state m
      rw [List.foldl_cons, List.forall_mem_cons]
      by_cases hshows : state.2.ShowsModule m
      · rw [syncModule_of_showsModule hshows, ih, and_iff_right hshows]
      · refine iff_of_false (fun heq => hshows ?_) fun hall => hshows hall.1
        have hrest := le_foldl_syncModule ms (syncModule state m)
        exact hcount.1 (by omega)

/-! ## What is shown -/

/-- What showing the state of the modules changes: parameters that follow a module get the state of the
last module that is bound to their header. -/
structure Follows (c d : Catalog) : Prop where
  declared : d.declared = c.declared
  rest : d = { c with headers := d.headers }
  others : ∀ path name p, c.parameter path name = .ok p →
    p.type ≠ .autoenabled ∨ c.boundTo path = [] → d.parameter path name = .ok p
  followers : ∀ path name p m, c.parameter path name = .ok p → p.type = .autoenabled →
    (c.boundTo path).getLast? = some m →
    d.parameter path name = .ok { p with value := enabledValue m.enabled }

theorem parameter_withAutoenabled {name value : String} {p : Parameter} (hp : h.get? name = some p) :
    (withAutoenabled value h).get? name = some (Header.autoenabledAt value p) := by
  rw [withAutoenabled, Header.get?_mapParams, hp, Option.map_some, Header.autoenabledAt]
  split <;> rfl

theorem follows_syncAutoenabled (c : Catalog) : c.Follows c.syncAutoenabled.2 := by
  have hparameter : ∀ path name p, c.parameter path name = .ok p →
      c.syncAutoenabled.2.parameter path name = .ok (match (c.boundTo path).getLast? with
        | some m => Header.autoenabledAt (enabledValue m.enabled) p
        | none => p) := by
    intro path name p hp
    obtain ⟨h, hh, hget⟩ := parameter_eq_ok_iff.1 hp
    refine parameter_eq_ok_iff.2 ⟨c.shown path h, ?_, ?_⟩
    · rw [get?_headers_syncAutoenabled, hh, Option.map_some]
    · unfold shown
      split
      · exact parameter_withAutoenabled hget
      · exact hget
  refine ⟨declared_syncAutoenabled c, syncAutoenabled_snd c, fun path name p hp hother => ?_,
    fun path name p m hp htype hlast => ?_⟩
  · rw [hparameter path name p hp]
    split
    · next m hlast =>
      rcases hother with htype | hnil
      · rw [Header.autoenabledAt, if_neg htype]
      · rw [hnil] at hlast
        cases hlast
    · rfl
  · rw [hparameter path name p hp, hlast]
    exact congrArg _ (if_pos htype)

theorem Follows.value {name : String} {p : Parameter} (hd : c.Follows d)
    (hp : d.parameter path name = .ok p) (htype : p.type = .autoenabled)
    (hlast : (c.boundTo path).getLast? = some m) : p.value = enabledValue m.enabled := by
  obtain ⟨q, hq, hqp⟩ := exists_parameter hd.declared hp
  have hqtype : q.type = .autoenabled := (congrArg (·.type) hqp).trans htype
  have hafter := hd.followers path name q m hq hqtype hlast
  rw [hp, Except.ok.injEq] at hafter
  rw [hafter]

/-! ## What should be shown -/

/-- Whether parameters that follow a module show if some module that is bound to their header is
enabled. The headers of enabled modules, which are generated, then all have them at `1`. -/
structure ShowsOwners (d : Catalog) : Prop where
  values : ∀ path name p, d.parameter path name = .ok p → p.type = .autoenabled →
    d.boundTo path ≠ [] → p.value = enabledValue ((d.boundTo path).any (·.enabled))
  generated : ∀ path ∈ Artifact.referencedHeaders d, ∀ name p, d.parameter path name = .ok p →
    p.type = .autoenabled → p.value = "1"

/-- Whether the last module that is bound to a header is enabled if any of them is, for headers with a
parameter that follows a module. -/
def LastDecides (c : Catalog) : Prop :=
  ∀ path name p, c.parameter path name = .ok p → p.type = .autoenabled →
    ∀ m, (c.boundTo path).getLast? = some m → m.enabled = (c.boundTo path).any (·.enabled)

/-- Whether no enabled and disabled module share a header with a parameter that follows a module. -/
def OwnersAgree (c : Catalog) : Prop :=
  ∀ path name p, c.parameter path name = .ok p → p.type = .autoenabled →
    ∀ m ∈ c.boundTo path, ∀ m' ∈ c.boundTo path, m.enabled = m'.enabled

theorem OwnersAgree.lastDecides (hc : c.OwnersAgree) : c.LastDecides := by
  intro path name p hp htype m hlast
  have hmem := List.mem_of_getLast? hlast
  rw [Bool.eq_iff_iff, List.any_eq_true]
  constructor
  · exact fun hon => ⟨m, hmem, hon⟩
  · rintro ⟨m', hm', hon⟩
    rwa [hc path name p hp htype m hmem m' hm']

theorem exists_mem_boundTo (hpath : path ∈ Artifact.referencedHeaders c) :
    ∃ m ∈ c.boundTo path, m.enabled = true := by
  rw [Artifact.referencedHeaders, NameSet.mem_ofList, List.mem_filterMap] at hpath
  obtain ⟨m, hm, hpath⟩ := hpath
  obtain ⟨hm, hon⟩ := List.mem_filter.1 hm
  exact ⟨m, mem_boundTo.2 ⟨hm, hpath⟩, hon⟩

theorem Follows.showsOwners_iff (hd : c.Follows d) : d.ShowsOwners ↔ c.LastDecides := by
  have hbound : d.boundTo = c.boundTo := by
    rw [hd.rest]
    rfl
  constructor
  · intro hshows path name p hp htype m hlast
    have hne : c.boundTo path ≠ [] := fun hnil => by simp [hnil] at hlast
    have hafter := hd.followers path name p m hp htype hlast
    have hvalue := hshows.values path name _ hafter htype (hbound ▸ hne)
    rwa [enabledValue_inj, hbound] at hvalue
  · intro hlast
    have hvalues : ∀ path name p, d.parameter path name = .ok p → p.type = .autoenabled →
        d.boundTo path ≠ [] → p.value = enabledValue ((d.boundTo path).any (·.enabled)) := by
      intro path name p hp htype hne
      obtain ⟨q, hq, hqp⟩ := exists_parameter hd.declared hp
      have hqtype : q.type = .autoenabled := (congrArg (·.type) hqp).trans htype
      rw [hbound] at hne ⊢
      rw [hd.value hp htype (List.getLast?_eq_some_getLast hne), enabledValue_inj]
      exact hlast path name q hq hqtype _ (List.getLast?_eq_some_getLast hne)
    refine ⟨hvalues, fun path hpath name p hp htype => ?_⟩
    obtain ⟨m, hm, hon⟩ := exists_mem_boundTo hpath
    have hany : (d.boundTo path).any (·.enabled) = true := List.any_eq_true.2 ⟨m, hm, hon⟩
    rw [hvalues path name p hp htype (List.ne_nil_of_mem hm), hany]
    rfl

/-- The state of every module is shown exactly if modules that share a header agree. -/
theorem Follows.showsModule_iff (hd : c.Follows d) :
    (∀ m ∈ d.modules.values, d.ShowsModule m) ↔ c.OwnersAgree := by
  have hmodules : d.modules = c.modules := by rw [hd.rest]
  constructor
  · intro hshows path name p hp htype
    -- each of the modules has the state that was shown last
    have hlast : ∀ last, (c.boundTo path).getLast? = some last →
        ∀ m ∈ c.boundTo path, m.enabled = last.enabled := by
      intro last hlast m hm
      obtain ⟨hm, hpath⟩ := mem_boundTo.1 hm
      obtain ⟨h, hh, hget⟩ := parameter_eq_ok_iff.1 (hd.followers path name p last hp htype hlast)
      have hvalue := hshows m (hmodules ▸ hm) path hpath h hh _ (Header.get?_eq_some_iff.1 hget).1 htype
      exact (enabledValue_inj.1 hvalue).symm
    intro m hm m' hm'
    have hne := List.getLast?_eq_some_getLast (List.ne_nil_of_mem hm)
    rw [hlast _ hne m hm, hlast _ hne m' hm']
  · intro hagree m hm path hpath h hh p hp htype
    have hparameter : d.parameter path p.name = .ok p :=
      parameter_eq_ok_iff.2 ⟨h, hh, Header.get?_eq_some_iff.2 ⟨hp, rfl⟩⟩
    obtain ⟨q, hq, hqp⟩ := exists_parameter hd.declared hparameter
    have hqtype : q.type = .autoenabled := (congrArg (·.type) hqp).trans htype
    have hmem : m ∈ c.boundTo path := mem_boundTo.2 ⟨hmodules ▸ hm, hpath⟩
    have hlast := List.getLast?_eq_some_getLast (List.ne_nil_of_mem hmem)
    rw [hd.value hparameter htype hlast, enabledValue_inj]
    exact hagree path p.name q hq hqtype _ (List.mem_of_getLast? hlast) m hmem

/-- Showing the state of the modules gives parameters that follow a module the state of the last module
which is bound to their header, and changes nothing else; doing it again changes nothing. So what is
shown is whether some module that is bound to the header is enabled exactly if the last one is enabled
whenever any is. If moreover nothing is to be counted as changed when it is done again, modules that
share such a header have to agree. -/
theorem syncAutoenabled_spec (c : Catalog) :
    let d := c.syncAutoenabled.2
    c.Follows d ∧ d.syncAutoenabled.2 = d ∧ (d.ShowsOwners ↔ c.LastDecides)
      ∧ (d.ShowsOwners ∧ d.syncAutoenabled.1 = 0 ↔ c.OwnersAgree) := by
  intro d
  have hd : c.Follows d := follows_syncAutoenabled c
  have hcount : d.syncAutoenabled.1 = 0 ↔ c.OwnersAgree :=
    (foldl_syncModule_fst_iff d.modules.values (0, d)).trans hd.showsModule_iff
  refine ⟨hd, syncAutoenabled_syncAutoenabled c, hd.showsOwners_iff, ?_⟩
  rw [hcount, hd.showsOwners_iff]
  exact and_iff_right_of_imp OwnersAgree.lastDecides

/-- A header with a parameter that follows a module. -/
def powerHeader : Header :=
  ⟨"cfg_power.h", [{ flagOn "CONFIG_POWER" [] with type := .autoenabled }], by simp, ""⟩

/-- Two modules that are bound to it, the first of them enabled. -/
def powerState : Catalog :=
  (build "" [moduleOn "battery" [] (some "cfg_power.h"), moduleOn "mains" [] (some "cfg_power.h")]
    [powerHeader] []).run [.select "battery"]

/-- As `mains` comes behind `battery`, the parameter shows that the header is not in use; and it is
counted as changed again. -/
theorem not_showsOwners_powerState :
    ¬ powerState.syncAutoenabled.2.ShowsOwners
      ∧ powerState.syncAutoenabled.2.syncAutoenabled.1 = 2 := by
  constructor
  · intro hshows
    have hany : (powerState.syncAutoenabled.2.boundTo "cfg_power.h").any (·.enabled) = true := by cbv
    have hvalue := hshows.values "cfg_power.h" "CONFIG_POWER"
      { flagOn "CONFIG_POWER" [] with type := .autoenabled } (by cbv) rfl (by cbv; simp)
    rw [hany] at hvalue
    exact absurd hvalue (by simp [flagOn, enabledValue])
  · cbv

end Configurator.Catalog
