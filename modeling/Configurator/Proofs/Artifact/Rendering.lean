import Configurator.Artifact
import Configurator.Proofs.Catalog.Loading
import Configurator.Proofs.Catalog.References
import Configurator.Proofs.Correspondence

/-!
# What generated files depend on

Two states of a source tree in which the same modules are enabled, and the headers of enabled modules
are written in the same way, give the same artifacts (`Artifact.ofCatalog_eq`). Parameters that follow a
module may differ, because they are set before headers are written.
-/

namespace Configurator

/-! ## Headers that are written in the same way -/

/-- Whether two states of a parameter are written in the same way, unless it follows a module. -/
structure Parameter.Alike (p q : Parameter) : Prop where
  declared : q.declared = p.declared
  rendered : p.type ≠ .autoenabled → q.rendered = p.rendered

theorem Parameter.Alike.activeDeps {p q : Parameter} (h : p.Alike q) : q.activeDeps = p.activeDeps := by
  have htype : q.type = p.type := congrArg (·.type) h.declared
  have hdeps : q.conditionalDeps = p.conditionalDeps := congrArg (·.conditionalDeps) h.declared
  by_cases hboolean : p.type = .boolean
  · have hvalue := h.rendered (by simp [hboolean])
    rw [Parameter.rendered, Parameter.rendered, htype, hboolean] at hvalue
    have hvalue' : q.value = p.value := by simpa using hvalue
    rw [Parameter.activeDeps, Parameter.activeDeps, isSet, isSet, htype, hdeps, hvalue']
  · simp [Parameter.activeDeps, isSet, htype, hboolean]

namespace Header

/-- Whether two states of a header are written in the same way, parameters apart that follow a
module. -/
structure Alike (h k : Header) : Prop where
  source : k.source = h.source
  params : List.Forall₂ Parameter.Alike h.params k.params

variable {h k : Header}

theorem Alike.activeDeps (hk : h.Alike k) :
    k.params.flatMap (·.activeDeps) = h.params.flatMap (·.activeDeps) := by
  have hparams := hk.params
  generalize h.params = ps at hparams ⊢
  generalize k.params = qs at hparams ⊢
  induction hparams with
  | nil => rfl
  | cons hpq _ ih => rw [List.flatMap_cons, List.flatMap_cons, hpq.activeDeps, ih]

/-- What setting those that follow a module makes of a parameter. -/
def autoenabledAt (value : String) (p : Parameter) : Parameter :=
  if p.type = .autoenabled then { p with value } else p

theorem params_withAutoenabled (value : String) (h : Header) :
    (Catalog.withAutoenabled value h).params = h.params.map (autoenabledAt value) := by
  refine List.map_congr_left fun p _ => ?_
  by_cases htype : p.type = .autoenabled <;> simp [autoenabledAt, htype]

/-- Setting those that follow a module leaves the other parameters. -/
theorem mem_foldl_withAutoenabled {q : Parameter} (htype : q.type ≠ .autoenabled) (ms : List Module)
    (hq : q ∈ h.params) :
    q ∈ (ms.foldl (fun h m => Catalog.withAutoenabled (Catalog.enabledValue m.enabled) h) h).params := by
  induction ms generalizing h with
  | nil => exact hq
  | cons m ms ih =>
      refine ih ?_
      rw [params_withAutoenabled]
      exact List.mem_map.2 ⟨q, hq, if_neg htype⟩

/-- A parameter that follows a module has the value of the last module. -/
theorem value_of_mem_withAutoenabled {value : String} {q : Parameter}
    (hq : q ∈ (Catalog.withAutoenabled value h).params) (htype : q.type = .autoenabled) :
    q.value = value := by
  rw [params_withAutoenabled] at hq
  obtain ⟨p, -, rfl⟩ := List.mem_map.1 hq
  unfold autoenabledAt at htype ⊢
  split
  · rfl
  · next hne =>
    rw [if_neg hne] at htype
    exact absurd htype hne

theorem alike_autoenabledAt {p q : Parameter} (hpq : p.Alike q) (value : String) :
    (autoenabledAt value p).Alike (autoenabledAt value q)
      ∧ (autoenabledAt value q).rendered = (autoenabledAt value p).rendered := by
  have htype : q.type = p.type := congrArg (·.type) hpq.declared
  by_cases hauto : p.type = .autoenabled
  · have hauto' : q.type = .autoenabled := htype.trans hauto
    rw [autoenabledAt, autoenabledAt, if_pos hauto, if_pos hauto']
    refine ⟨⟨hpq.declared, fun hne => absurd hauto hne⟩, ?_⟩
    simp [Parameter.rendered, hauto, hauto']
  · have hother : q.type ≠ .autoenabled := fun heq => hauto (htype.symm.trans heq)
    rw [autoenabledAt, autoenabledAt, if_neg hauto, if_neg hother]
    exact ⟨hpq, hpq.rendered hauto⟩

theorem Alike.withAutoenabled (hk : h.Alike k) (value : String) :
    (Catalog.withAutoenabled value h).Alike (Catalog.withAutoenabled value k) := by
  refine ⟨hk.source, ?_⟩
  rw [params_withAutoenabled, params_withAutoenabled, List.forall₂_map_left_iff,
    List.forall₂_map_right_iff]
  exact hk.params.imp fun p q hpq => (alike_autoenabledAt hpq value).1

theorem Alike.foldl_withAutoenabled (hk : h.Alike k) (ms : List Module) :
    (ms.foldl (fun h m => Catalog.withAutoenabled (Catalog.enabledValue m.enabled) h) h).Alike
      (ms.foldl (fun k m => Catalog.withAutoenabled (Catalog.enabledValue m.enabled) k) k) := by
  induction ms generalizing h k with
  | nil => exact hk
  | cons m ms ih => exact ih (hk.withAutoenabled _)

/-- Once parameters that follow a module have one value, headers that are alike are written in the same
way. -/
theorem Alike.render_withAutoenabled (hk : h.Alike k) (value : String) :
    (Catalog.withAutoenabled value k).render = (Catalog.withAutoenabled value h).render := by
  have hedits : (k.params.map (autoenabledAt value)).map (fun p => (p.span, p.rendered.toList))
      = (h.params.map (autoenabledAt value)).map fun p => (p.span, p.rendered.toList) := by
    have hparams := hk.params
    generalize h.params = ps at hparams ⊢
    generalize k.params = qs at hparams ⊢
    induction hparams with
    | nil => rfl
    | @cons p q _ _ hpq _ ih =>
        obtain ⟨halike, hrendered⟩ := alike_autoenabledAt hpq value
        have hspan : (autoenabledAt value q).span = (autoenabledAt value p).span :=
          congrArg (·.span) halike.declared
        simp only [List.map_cons, hspan, hrendered, ih]
  rw [render, render, edits, edits, params_withAutoenabled, params_withAutoenabled, hedits]
  exact congrArg (fun source : String => String.ofList (splice source.toList 0 _)) hk.source

end Header

/-! ## Setting parameters that follow a module -/

namespace Catalog

variable {c d : Catalog}

/-- Setting what follows a module leaves all else. -/
theorem modules_syncAutoenabled (c : Catalog) : c.syncAutoenabled.2.modules = c.modules :=
  syncAutoenabled_induction (P := fun d => d.modules = c.modules) (fun _ _ _ hd => hd) rfl

theorem enabledModules_syncAutoenabled (c : Catalog) :
    c.syncAutoenabled.2.enabledModules = c.enabledModules := by
  rw [enabledModules, enabledModules, modules_syncAutoenabled]

theorem effectiveDeps_syncAutoenabled (c : Catalog) (name : String) :
    c.syncAutoenabled.2.effectiveDeps name = c.effectiveDeps name := by
  refine syncAutoenabled_induction (P := fun d => d.effectiveDeps name = c.effectiveDeps name)
    (fun d path value hd => ?_) rfl
  exact (effectiveDeps_modifyHeader_withAutoenabled d path value name).trans hd

/-- A header is set for the modules that are bound to it, one after the other. -/
theorem get?_headers_foldl_syncModule (ms : List Module) (state : Nat × Catalog) (path : String) :
    (ms.foldl syncModule state).2.headers.get? path
      = (state.2.headers.get? path).map fun h =>
          (ms.filter (·.configuration = some path)).foldl
            (fun h m => withAutoenabled (enabledValue m.enabled) h) h := by
  induction ms generalizing state with
  | nil => simp
  | cons m ms ih =>
      rw [List.foldl_cons, ih, syncModule]
      dsimp only
      cases hconfiguration : m.configuration with
      | none => simp [hconfiguration]
      | some other =>
          cases hget : state.2.headers.get? other with
          | none =>
              by_cases hpath : other = path
              · subst hpath
                simp [hget]
              · simp [hget, hconfiguration, hpath]
          | some h =>
              simp only [Option.bind_some, Option.map_some, hget, modifyHeader, NameMap.get?_modify]
              by_cases hpath : other = path
              · subst hpath
                simp [hget, hconfiguration]
              · simp [hconfiguration, hpath, Ne.symm hpath]

/-- What setting those that follow a module makes of a header: other parameters stay, and these are set
if a module is bound to it. -/
theorem params_syncAutoenabled {path : String} {h k : Header} (hh : c.headers.get? path = some h)
    (hk : c.syncAutoenabled.2.headers.get? path = some k) :
    (∀ q ∈ h.params, q.type ≠ .autoenabled → q ∈ k.params)
      ∧ (c.owners path ≠ [] → ∀ q ∈ k.params, q.type = .autoenabled → q.value = "0" ∨ q.value = "1") := by
  rw [syncAutoenabled, get?_headers_foldl_syncModule, hh, Option.map_some, Option.some.injEq] at hk
  subst hk
  refine ⟨fun q hq htype => Header.mem_foldl_withAutoenabled htype _ hq, fun howner q hq htype => ?_⟩
  obtain hnil | ⟨init, last, hlast⟩ :=
    List.eq_nil_or_concat (c.modules.values.filter (·.configuration = some path))
  · refine absurd ?_ howner
    rw [owners, enabledModules, List.filter_filter, List.map_eq_nil_iff, List.filter_eq_nil_iff]
    intro m hm
    have hno := List.filter_eq_nil_iff.1 hnil m hm
    simp_all
  · rw [hlast, List.concat_eq_append, List.foldl_append, List.foldl_cons, List.foldl_nil] at hq
    rw [Header.value_of_mem_withAutoenabled hq htype]
    cases last.enabled
    · exact .inl rfl
    · exact .inr rfl

/-! ## States that are alike -/

/-- Whether two states of a source tree have headers that are alike, as far as they are bound to enabled
modules of the first one. -/
structure Alike (c d : Catalog) : Prop where
  declared : d.declared = c.declared
  parameters : ∀ path name p q, c.owners path ≠ [] → c.parameter path name = .ok p →
    d.parameter path name = .ok q → p.type ≠ .autoenabled → q.rendered = p.rendered

theorem enabledModules_syncAutoenabled_congr (hmodules : d.modules = c.modules) :
    d.syncAutoenabled.2.enabledModules = c.syncAutoenabled.2.enabledModules := by
  rw [enabledModules_syncAutoenabled, enabledModules_syncAutoenabled, enabledModules, enabledModules,
    hmodules]

theorem owners_ne_nil {m : Module} {path : String} (hm : m ∈ c.enabledModules)
    (hpath : m.configuration = some path) : c.owners path ≠ [] := by
  refine List.ne_nil_of_mem (a := m.name) (List.mem_map.2 ⟨m, List.mem_filter.2 ⟨hm, ?_⟩, rfl⟩)
  simpa using hpath

/-- A header that an enabled module is bound to is alike in both states. -/
theorem Alike.exists_header (halike : c.Alike d) {path : String} {h : Header}
    (howner : c.owners path ≠ []) (hh : c.headers.get? path = some h) :
    ∃ k, d.headers.get? path = some k ∧ h.Alike k := by
  obtain ⟨k, hk, hdecl⟩ := Catalog.exists_header halike.declared.symm hh
  refine ⟨k, hk, Header.source_of_declared hdecl, ?_⟩
  refine (mem_of_forall₂ (Header.forall₂_of_declared hdecl)).imp ?_
  rintro p q ⟨hp, hq, hpq⟩
  refine ⟨hpq, fun htype => ?_⟩
  have hname : q.name = p.name := congrArg (·.name) hpq
  exact halike.parameters path p.name p q howner
    (parameter_eq_ok_iff.2 ⟨h, hh, Header.get?_eq_some_iff.2 ⟨hp, rfl⟩⟩)
    (parameter_eq_ok_iff.2 ⟨k, hk, Header.get?_eq_some_iff.2 ⟨hq, hname⟩⟩) htype

theorem Alike.get?_headers_eq_none (halike : c.Alike d) {path : String}
    (h : c.headers.get? path = none) : d.headers.get? path = none := by
  cases hk : d.headers.get? path with
  | none => rfl
  | some k =>
      obtain ⟨h', hh', -⟩ := Catalog.exists_header halike.declared hk
      rw [h] at hh'
      cases hh'

theorem module?_of_mem_enabledModules (hbuilt : c.IsBuilt) {m : Module} (hm : m ∈ c.enabledModules) :
    c.module? m.name = some m := by
  obtain ⟨name, hname⟩ := NameMap.mem_values_iff.1 (List.mem_filter.1 hm).1
  rwa [hbuilt.name_eq hname]

/-- Enabled modules depend on the same. -/
theorem Alike.effectiveDeps (halike : c.Alike d) (hbuilt : c.IsBuilt) {m : Module}
    (hm : m ∈ c.enabledModules) : d.effectiveDeps m.name = c.effectiveDeps m.name := by
  have hmodule := module?_of_mem_enabledModules hbuilt hm
  obtain ⟨m', hmodule', heq⟩ := exists_module? halike.declared.symm hmodule
  unfold Catalog.effectiveDeps conditionalDeps moduleHeader?
  rw [hmodule, hmodule', Option.bind_some, Option.bind_some, configuration_eq heq]
  dsimp only
  rw [depends_eq heq]
  cases hpath : m.configuration with
  | none => rfl
  | some path =>
      simp only [Option.bind_some]
      cases hh : c.headers.get? path with
      | some h =>
          obtain ⟨k, hk, hhk⟩ := halike.exists_header (owners_ne_nil hm hpath) hh
          simp only [hk, hhk.activeDeps]
      | none => rw [halike.get?_headers_eq_none hh]

/-- Headers that enabled modules are bound to are written in the same way. -/
theorem Alike.render_syncAutoenabled (halike : c.Alike d) (hmodules : d.modules = c.modules)
    {m : Module} (hm : m ∈ c.enabledModules) {path : String} (hpath : m.configuration = some path) :
    (d.syncAutoenabled.2.headers.get? path).map Header.render
      = (c.syncAutoenabled.2.headers.get? path).map Header.render := by
  rw [syncAutoenabled, syncAutoenabled, get?_headers_foldl_syncModule, get?_headers_foldl_syncModule,
    hmodules]
  cases hh : c.headers.get? path with
  | none => rw [halike.get?_headers_eq_none hh]
  | some h =>
      obtain ⟨k, hk, hhk⟩ := halike.exists_header (owners_ne_nil hm hpath) hh
      have hbound : m ∈ c.modules.values.filter (·.configuration = some path) :=
        List.mem_filter.2 ⟨(List.mem_filter.1 hm).1, by simpa using hpath⟩
      rw [hk, Option.map_some, Option.map_some, Option.map_some, Option.map_some, Option.some.injEq]
      -- the last module that is bound to the header sets all that follows a module
      obtain hnil | ⟨init, last, hlast⟩ :=
        List.eq_nil_or_concat (c.modules.values.filter (·.configuration = some path))
      · rw [hnil] at hbound
        cases hbound
      · rw [hlast, List.concat_eq_append, List.foldl_append, List.foldl_append, List.foldl_cons,
          List.foldl_nil, List.foldl_cons, List.foldl_nil]
        exact (hhk.foldl_withAutoenabled init).render_withAutoenabled _

end Catalog

/-- Parameters that follow a module do so under any source root. -/
theorem Catalog.syncAutoenabled_atRoot (c : Catalog) (sourceRoot : String) :
    (c.atRoot sourceRoot).syncAutoenabled.2 = c.syncAutoenabled.2.atRoot sourceRoot := by
  have hfold : ∀ (ms : List Module) (updated : Nat) (d : Catalog),
      ms.foldl syncModule (updated, d.atRoot sourceRoot)
        = Prod.map id (·.atRoot sourceRoot) (ms.foldl syncModule (updated, d)) := by
    intro ms
    induction ms with
    | nil => exact fun _ _ => rfl
    | cons m ms ih =>
        intro updated d
        have hheaders : (d.atRoot sourceRoot).headers = d.headers := rfl
        rw [List.foldl_cons, List.foldl_cons, syncModule, syncModule]
        dsimp only
        rw [hheaders]
        cases m.configuration.bind fun path => (d.headers.get? path).map (path, ·) with
        | none => exact ih _ d
        | some found => exact ih _ (d.modifyHeader found.1 (withAutoenabled (enabledValue m.enabled)))
  exact congrArg Prod.snd (hfold c.modules.values 0 c)

/-! ## Sources that are found -/

/-- Whether two projects agree in what files are generated from. -/
structure Project.SameBuild (p q : Project) : Prop where
  name : q.name = p.name
  cpu : q.cpu = p.cpu
  toolchain : q.toolchain = p.toolchain
  clockFrequency : q.clockFrequency = p.clockFrequency

namespace FileIndex

/-- What is found under a name does not depend on what was looked for before. -/
theorem findNamed_findNamed (index : FileIndex) (tree : FileTree) (name other : String) :
    ((index.findNamed tree name).2.findNamed tree other).1 = (index.findNamed tree other).1 := by
  unfold findNamed
  cases hempty : index.byName.isEmpty with
  | false => simp [hempty]
  | true =>
      cases hlisting : index.listing <;> simp [hlisting, files]

/-- Whether two indexes find the same source files. -/
def SameSources (tree : FileTree) (index : FileIndex) (tree' : FileTree) (index' : FileIndex) : Prop :=
  ∀ name, Language.ofName? name ≠ none →
    (index'.findNamed tree' name).1 = (index.findNamed tree name).1

variable {tree tree' : FileTree} {index index' : FileIndex}

theorem SameSources.findNamed (h : SameSources tree index tree' index') (name : String) :
    SameSources tree (index.findNamed tree name).2 tree' (index'.findNamed tree' name).2 := by
  intro other hother
  rw [findNamed_findNamed, findNamed_findNamed]
  exact h other hother

end FileIndex

namespace SourceLists

open FileIndex (SameSources)

variable {tree tree' : FileTree} {index index' : FileIndex} {c d : Catalog}

theorem findNamed_congr (h : SameSources tree index tree' index') (names : List String) :
    (findNamed tree' index' names).1 = (findNamed tree index names).1
      ∧ SameSources tree (findNamed tree index names).2 tree' (findNamed tree' index' names).2 := by
  induction names generalizing index index' with
  | nil => exact ⟨rfl, h⟩
  | cons name names ih =>
      obtain ⟨hfound, hrest⟩ := ih (h.findNamed name)
      unfold findNamed
      dsimp only
      cases hlanguage : Language.ofName? name with
      | none => exact ⟨hfound, hrest⟩
      | some language =>
          refine ⟨?_, hrest⟩
          dsimp only
          rw [hfound, h name (by simp [hlanguage])]

/-- Modules that depend on the same have the same sources. -/
theorem ofModules_congr (h : SameSources tree index tree' index') {p q : Project}
    (hpq : p.SameBuild q) (hroot : startOf d.sourceRoot = startOf c.sourceRoot)
    (hmodule : ∀ name, d.isModule name = c.isModule name)
    {ms : List Module} (hdeps : ∀ m ∈ ms, d.effectiveDeps m.name = c.effectiveDeps m.name) :
    (ofModules tree' q d index' ms).1 = (ofModules tree p c index ms).1 := by
  induction ms generalizing index index' with
  | nil => rfl
  | cons m ms ih =>
      have hone : (ofModule tree' q d index' m).1 = (ofModule tree p c index m).1
          ∧ SameSources tree (ofModule tree p c index m).2 tree'
            (ofModule tree' q d index' m).2 := by
        unfold ofModule findSources
        dsimp only
        simp only [hdeps m List.mem_cons_self, hmodule, hroot, hpq.name, hpq.cpu]
        obtain ⟨hfound, hrest⟩ := findNamed_congr h ((m.name ::
          (c.effectiveDeps m.name).filter (!c.isModule ·)).flatMap (candidates p.cpu.fileTags))
        rw [hfound]
        exact ⟨rfl, hrest⟩
      unfold ofModules
      dsimp only
      rw [hone.1, ih hone.2 fun m hm => hdeps m (List.mem_cons_of_mem _ hm)]

end SourceLists

/-! ## Artifacts -/

namespace Artifact

open FileIndex (SameSources)

variable {tree tree' : FileTree} {index index' : FileIndex} {c d : Catalog}

theorem ofHeaders_congr (halike : c.Alike d) (hmodules : d.modules = c.modules) {p q : Project}
    (hname : q.name = p.name) (configDir : String) :
    ofHeaders q configDir d.syncAutoenabled.2 = ofHeaders p configDir c.syncAutoenabled.2 := by
  have henabled := Catalog.enabledModules_syncAutoenabled_congr hmodules
  have hreferenced : referencedHeaders d.syncAutoenabled.2 = referencedHeaders c.syncAutoenabled.2 := by
    rw [referencedHeaders, referencedHeaders, henabled]
  unfold ofHeaders headerPath
  rw [hreferenced, hname]
  refine List.filterMap_congr fun path hpath => ?_
  obtain ⟨m, hm, hconfiguration⟩ :=
    List.mem_filterMap.1 (NameSet.mem_ofList.1 (NameSet.mem_toList.1 hpath))
  have hm' : m ∈ c.enabledModules := by rwa [Catalog.enabledModules_syncAutoenabled] at hm
  have hrender := halike.render_syncAutoenabled hmodules hm' hconfiguration
  have hmap := congrArg (Option.map fun text => (⟨headerPath p configDir path, text, false⟩ : Artifact))
    hrender
  rwa [Option.map_map, Option.map_map] at hmap

/-- The same is generated for states that are alike, if the same sources are found. -/
theorem ofCatalog_congr (halike : c.Alike d) (hmodules : d.modules = c.modules) (hbuilt : c.IsBuilt)
    (hsources : SameSources tree index tree' index') {p q : Project} (hpq : p.SameBuild q)
    (templates : TemplateSet) (configDir : String) :
    ofCatalog tree' q templates configDir d index' = ofCatalog tree p templates configDir c index := by
  have henabled := Catalog.enabledModules_syncAutoenabled_congr hmodules
  have hdeclared : d.syncAutoenabled.2.declared = c.syncAutoenabled.2.declared := by
    rw [Catalog.declared_syncAutoenabled, Catalog.declared_syncAutoenabled, halike.declared]
  have hroot : d.syncAutoenabled.2.sourceRoot = c.syncAutoenabled.2.sourceRoot :=
    congrArg (·.sourceRoot) hdeclared
  have hdeps : ∀ m ∈ c.syncAutoenabled.2.enabledModules,
      d.syncAutoenabled.2.effectiveDeps m.name = c.syncAutoenabled.2.effectiveDeps m.name := by
    intro m hm
    rw [Catalog.enabledModules_syncAutoenabled] at hm
    rw [Catalog.effectiveDeps_syncAutoenabled, Catalog.effectiveDeps_syncAutoenabled,
      halike.effectiveDeps hbuilt hm]
  have hfound :=
    SourceLists.ofModules_congr hsources hpq (congrArg SourceLists.startOf hroot)
      (Catalog.isModule_congr hdeclared) hdeps
  have hlists : (SourceLists.ofCatalog tree' q d.syncAutoenabled.2 index').1
      = (SourceLists.ofCatalog tree p c.syncAutoenabled.2 index).1 := by
    unfold SourceLists.ofCatalog
    dsimp only
    rw [henabled, hfound, hroot, hpq.cpu]
  have htokens : ∀ sources, TokenTable.ofProject templates.family q d.syncAutoenabled.2 sources
      = TokenTable.ofProject templates.family p c.syncAutoenabled.2 sources := fun sources => by
    unfold TokenTable.ofProject TokenTable.commonTokens TokenTable.familyTokens
      TokenTable.moduleConstants
    rw [henabled, hpq.name, hpq.cpu, hpq.toolchain, hpq.clockFrequency]
  unfold ofCatalog
  dsimp only
  rw [ofHeaders_congr halike hmodules hpq.name, hlists, htokens]

/-- The same is generated under another source root, if sources are listed under the same name. -/
theorem ofCatalog_atRoot {sourceRoot : String}
    (hstart : SourceLists.startOf sourceRoot = SourceLists.startOf c.sourceRoot) (p : Project)
    (templates : TemplateSet) (configDir : String) :
    ofCatalog tree p templates configDir (c.atRoot sourceRoot) index
      = ofCatalog tree p templates configDir c index := by
  have hdeclared := Catalog.declared_syncAutoenabled c
  have hroot : c.syncAutoenabled.2.sourceRoot = c.sourceRoot := congrArg (·.sourceRoot) hdeclared
  have hroot' : (c.syncAutoenabled.2.atRoot sourceRoot).sourceRoot = sourceRoot := rfl
  have hsame : p.SameBuild p := ⟨rfl, rfl, rfl, rfl⟩
  have hmodule : ∀ name, (c.syncAutoenabled.2.atRoot sourceRoot).isModule name
      = c.syncAutoenabled.2.isModule name := fun _ => rfl
  have hfound : (SourceLists.ofModules tree p (c.syncAutoenabled.2.atRoot sourceRoot) index
      c.syncAutoenabled.2.enabledModules).1
        = (SourceLists.ofModules tree p c.syncAutoenabled.2 index
          c.syncAutoenabled.2.enabledModules).1 :=
    SourceLists.ofModules_congr (fun _ _ => rfl) hsame (by rw [hroot', hroot, hstart]) hmodule
      fun _ _ => rfl
  have hlists : (SourceLists.ofCatalog tree p (c.syncAutoenabled.2.atRoot sourceRoot) index).1
      = (SourceLists.ofCatalog tree p c.syncAutoenabled.2 index).1 := by
    have henabled : (c.syncAutoenabled.2.atRoot sourceRoot).enabledModules
        = c.syncAutoenabled.2.enabledModules := rfl
    unfold SourceLists.ofCatalog
    dsimp only
    rw [henabled, hfound, hroot', hroot, hstart]
  unfold ofCatalog
  dsimp only
  rw [Catalog.syncAutoenabled_atRoot, hlists]
  rfl

end Artifact

end Configurator
