import Configurator.Proofs.Catalog.Operation

/-!
# The dependency index

The index is built once, from what the modules and headers of a catalogue declare. As no operation
changes that, it is in every state the index that would be built anew (`IsBuilt.index_eq`), and it
answers for every state: `mem_hardDependents` says that the dependents of a name are the modules that
list it, each once (`nodup_hardDependents`), and `mem_conditionalGates` that its gates are the flags
that require it while they are set.
-/

namespace Configurator

theorem NameMap.mem_values_iff {α : Type} {m : NameMap α} {v : α} :
    v ∈ m.values ↔ ∃ name, m.get? name = some v := by
  constructor
  · intro h
    obtain ⟨⟨name, w⟩, he, rfl⟩ := List.mem_map.1 h
    exact ⟨name, get?_eq_some_iff.2 he⟩
  · rintro ⟨name, h⟩
    exact List.mem_map.2 ⟨_, get?_eq_some_iff.1 h, rfl⟩

theorem NameMap.values_map {α β : Type} (f : α → β) (m : NameMap α) :
    (m.map fun _ => f).values = m.values.map f := by
  simp [values, map, Function.comp_def]

/-! ## Building the index -/

namespace DependencyIndex

theorem getD_push {α : Type} (lists : NameMap (List α)) (name dep : String) (value : α) :
    ((push lists name value).get? dep).getD []
      = (lists.get? dep).getD [] ++ (if name = dep then [value] else []) := by
  rw [push, NameMap.get?_insert]
  split
  · next h =>
    subst h
    rfl
  · simp

/-- One module joins the dependents of each name that it lists. -/
theorem mem_dependents_add {headers : NameMap Header} {index : DependencyIndex} {m : Module}
    {name dep : String} :
    name ∈ (((add headers index m).dependents).get? dep).getD []
      ↔ name ∈ (index.dependents.get? dep).getD [] ∨ (name = m.name ∧ dep ∈ m.depends) := by
  have key : ∀ (deps : List String) (lists : NameMap (List String)),
      name ∈ ((deps.foldl (fun lists dep =>
          if m.name ∈ (lists.get? dep).getD [] then lists else push lists dep m.name) lists).get?
          dep).getD []
        ↔ name ∈ (lists.get? dep).getD [] ∨ (name = m.name ∧ dep ∈ deps) := by
    intro deps
    induction deps with
    | nil => simp
    | cons first deps ih =>
        intro lists
        rw [List.foldl_cons, ih]
        split
        · next hlisted =>
          constructor
          · rintro (h | ⟨rfl, h⟩)
            · exact .inl h
            · exact .inr ⟨rfl, List.mem_cons_of_mem _ h⟩
          · rintro (h | ⟨rfl, h⟩)
            · exact .inl h
            · rcases List.mem_cons.1 h with rfl | h
              · exact .inl hlisted
              · exact .inr ⟨rfl, h⟩
        · rw [getD_push, List.mem_append]
          by_cases hfirst : first = dep
          · subst hfirst
            simp only [if_true, List.mem_cons, true_or, and_true]
            tauto
          · simp only [hfirst, if_false, List.not_mem_nil, or_false, List.mem_cons,
              Ne.symm hfirst, false_or]
  exact key m.depends index.dependents

theorem mem_dependents_build {modules : NameMap Module} {headers : NameMap Header}
    {name dep : String} :
    name ∈ (((build modules headers).dependents).get? dep).getD []
      ↔ ∃ m ∈ modules.values, m.name = name ∧ dep ∈ m.depends := by
  have key : ∀ (ms : List Module) (index : DependencyIndex),
      name ∈ (((ms.foldl (add headers) index).dependents).get? dep).getD []
        ↔ name ∈ (index.dependents.get? dep).getD []
          ∨ ∃ m ∈ ms, m.name = name ∧ dep ∈ m.depends := by
    intro ms
    induction ms with
    | nil => simp
    | cons m ms ih =>
        intro index
        rw [List.foldl_cons, ih, mem_dependents_add, or_assoc, List.exists_mem_cons_iff,
          @eq_comm _ name]
  exact (key modules.values ⟨.empty, .empty⟩).trans (by simp)

theorem mem_gatesOf {headers : NameMap Header} {m : Module} {e : ParamRef × List String} :
    e ∈ gatesOf headers m
      ↔ ∃ path h p, m.configuration = some path ∧ headers.get? path = some h ∧ p ∈ h.params
          ∧ p.type = .boolean ∧ e = (⟨m.name, path, p.name⟩, p.conditionalDeps) := by
  unfold gatesOf
  cases hpath : m.configuration with
  | none => simp
  | some path =>
      cases hh : headers.get? path with
      | none => simp [hh]
      | some h =>
          simp only [hh, List.mem_map, List.mem_filter, decide_eq_true_eq]
          constructor
          · rintro ⟨p, ⟨hp, htype⟩, rfl⟩
            exact ⟨path, h, p, rfl, hh, hp, htype, rfl⟩
          · rintro ⟨path', h', p, hpath', hh', hp, htype, rfl⟩
            cases hpath'
            rw [hh, Option.some.injEq] at hh'
            subst hh'
            exact ⟨p, ⟨hp, htype⟩, rfl⟩

theorem mem_foldl_push {gate gate' : ParamRef} {dep : String} {deps : List String}
    {lists : NameMap (List ParamRef)} :
    gate ∈ ((deps.foldl (fun lists dep => push lists dep gate') lists).get? dep).getD []
      ↔ gate ∈ (lists.get? dep).getD [] ∨ (gate = gate' ∧ dep ∈ deps) := by
  induction deps generalizing lists with
  | nil => simp
  | cons first deps ih =>
      rw [List.foldl_cons, ih, getD_push, List.mem_append, List.mem_cons]
      by_cases hfirst : first = dep
      · subst hfirst
        simp only [if_true, List.mem_singleton, true_or, and_true]
        tauto
      · simp [hfirst, Ne.symm hfirst]

/-- One module adds its own flags to the gates of what they require. -/
theorem mem_gates_add {headers : NameMap Header} {index : DependencyIndex} {m : Module}
    {gate : ParamRef} {dep : String} :
    gate ∈ (((add headers index m).gates).get? dep).getD []
      ↔ gate ∈ (index.gates.get? dep).getD []
        ∨ ∃ e ∈ gatesOf headers m, gate = e.1 ∧ dep ∈ e.2 := by
  have key : ∀ (es : List (ParamRef × List String)) (lists : NameMap (List ParamRef)),
      gate ∈ ((es.foldl (fun lists e =>
          e.2.foldl (fun lists dep => push lists dep e.1) lists) lists).get? dep).getD []
        ↔ gate ∈ (lists.get? dep).getD [] ∨ ∃ e ∈ es, gate = e.1 ∧ dep ∈ e.2 := by
    intro es
    induction es with
    | nil => simp
    | cons e es ih =>
        intro lists
        rw [List.foldl_cons, ih, mem_foldl_push, or_assoc, List.exists_mem_cons_iff]
  exact key (gatesOf headers m) index.gates

theorem mem_gates_build {modules : NameMap Module} {headers : NameMap Header}
    {gate : ParamRef} {dep : String} :
    gate ∈ (((build modules headers).gates).get? dep).getD []
      ↔ ∃ m ∈ modules.values, ∃ e ∈ gatesOf headers m, gate = e.1 ∧ dep ∈ e.2 := by
  have key : ∀ (ms : List Module) (index : DependencyIndex),
      gate ∈ (((ms.foldl (add headers) index).gates).get? dep).getD []
        ↔ gate ∈ (index.gates.get? dep).getD []
          ∨ ∃ m ∈ ms, ∃ e ∈ gatesOf headers m, gate = e.1 ∧ dep ∈ e.2 := by
    intro ms
    induction ms with
    | nil => simp
    | cons m ms ih =>
        intro index
        rw [List.foldl_cons, ih, mem_gates_add, or_assoc, List.exists_mem_cons_iff]
  exact (key modules.values ⟨.empty, .empty⟩).trans (by simp)

/-- However often a module lists a name, it is one of its dependents. -/
theorem nodup_dependents_add {headers : NameMap Header} {index : DependencyIndex} {m : Module}
    (h : ∀ dep, ((index.dependents.get? dep).getD []).Nodup) (dep : String) :
    (((add headers index m).dependents.get? dep).getD []).Nodup := by
  refine List.foldlRecOn
    (motive := fun lists : NameMap (List String) => ∀ dep, ((lists.get? dep).getD []).Nodup)
    m.depends _ h (fun lists hlists first _ dep => ?_) dep
  split
  · exact hlists dep
  · next hnew =>
    rw [getD_push]
    split
    · next heq =>
      subst heq
      exact (hlists first).append (List.nodup_singleton _) (List.disjoint_singleton.2 hnew)
    · rw [List.append_nil]
      exact hlists dep

theorem nodup_dependents_build (modules : NameMap Module) (headers : NameMap Header) (dep : String) :
    (((build modules headers).dependents.get? dep).getD []).Nodup := by
  unfold build
  refine List.foldlRecOn
    (motive := fun index : DependencyIndex => ∀ dep, ((index.dependents.get? dep).getD []).Nodup)
    _ _ (fun dep => ?_) (fun _ h _ _ => nodup_dependents_add h) dep
  exact List.nodup_nil

theorem gatesOf_declared (headers : NameMap Header) (m : Module) :
    gatesOf (headers.map fun _ => Header.declared) m.declared = gatesOf headers m := by
  unfold gatesOf
  rw [show m.declared.configuration = m.configuration from rfl]
  cases m.configuration with
  | none => rfl
  | some path =>
      simp only [NameMap.get?_map]
      cases headers.get? path with
      | none => rfl
      | some h =>
          simp only [Option.map_some, Header.params_declared, List.filter_map, List.map_map]
          rfl

/-- The index depends on nothing but what modules and headers declare. -/
theorem build_declared (modules : NameMap Module) (headers : NameMap Header) :
    build (modules.map fun _ => Module.declared) (headers.map fun _ => Header.declared)
      = build modules headers := by
  have hadd : ∀ index m, add (headers.map fun _ => Header.declared) index m.declared
      = add headers index m := fun index m => by
    rw [add, gatesOf_declared]
    rfl
  rw [build, NameMap.values_map, List.foldl_map]
  simp only [hadd]
  rfl

end DependencyIndex

/-! ## Built catalogues -/

namespace Catalog

/-- In a map of collected modules a module stands under its own name, and is not enabled. -/
theorem collectModules_named {modules : List Module} {name : String} {m : Module}
    (h : (collectModules modules).get? name = some m) : m.name = name ∧ m.enabled = false := by
  have key : ∀ found : NameMap Module,
      (∀ n m, found.get? n = some m → m.name = n ∧ m.enabled = false) →
      ∀ n m, (modules.foldl (fun found m =>
        if found.contains m.name then found else found.insert m.name { m with enabled := false })
        found).get? n = some m → m.name = n ∧ m.enabled = false := by
    intro found hfound
    refine List.foldlRecOn
      (motive := fun found : NameMap Module => ∀ n m, found.get? n = some m →
        m.name = n ∧ m.enabled = false) _ _ hfound fun found hfound new _ => ?_
    split
    · exact hfound
    · intro n m hm
      rw [NameMap.get?_insert] at hm
      split at hm
      · next heq =>
        simp only [Option.some.injEq] at hm
        subst hm
        exact ⟨heq, rfl⟩
      · exact hfound n m hm
  exact key .empty (by simp) name m h

/-- Whether a catalogue is a state of one that was built. -/
def IsBuilt (c : Catalog) : Prop :=
  ∃ sourceRoot modules headers lists, c.declared = (build sourceRoot modules headers lists).declared

variable {c d : Catalog}

theorem isBuilt_build (sourceRoot : String) (modules : List Module) (headers : List Header)
    (lists : List ValueList) : (build sourceRoot modules headers lists).IsBuilt :=
  ⟨sourceRoot, modules, headers, lists, rfl⟩

theorem IsBuilt.congr (hc : c.IsBuilt) (h : d.declared = c.declared) : d.IsBuilt := by
  obtain ⟨sourceRoot, modules, headers, lists, hbuilt⟩ := hc
  exact ⟨sourceRoot, modules, headers, lists, h.trans hbuilt⟩

theorem IsBuilt.step (hc : c.IsBuilt) (op : Operation) : (c.step op).IsBuilt :=
  hc.congr (declared_step c op)

theorem IsBuilt.run (hc : c.IsBuilt) (ops : List Operation) : (c.run ops).IsBuilt :=
  hc.congr (declared_run c ops)

/-- Modules stand under their own names. -/
theorem IsBuilt.name_eq (hc : c.IsBuilt) {name : String} {m : Module}
    (hm : c.module? name = some m) : m.name = name := by
  obtain ⟨sourceRoot, modules, headers, lists, h⟩ := hc
  obtain ⟨m', hm', heq⟩ := exists_module? h hm
  have hname := congrArg Module.name heq
  exact hname.symm.trans (collectModules_named hm').1

theorem IsBuilt.mem_values_iff (hc : c.IsBuilt) {m : Module} :
    m ∈ c.modules.values ↔ c.module? m.name = some m := by
  refine NameMap.mem_values_iff.trans ⟨?_, fun hm => ⟨_, hm⟩⟩
  rintro ⟨name, hm⟩
  obtain rfl := hc.name_eq hm
  exact hm

/-- In every state the index is the one that would be built anew. -/
theorem IsBuilt.index_eq (hc : c.IsBuilt) : c.index = .build c.modules c.headers := by
  obtain ⟨sourceRoot, modules, headers, lists, h⟩ := hc
  let fresh := build sourceRoot modules headers lists
  calc c.index = fresh.index := index_congr h
    _ = .build fresh.declared.modules fresh.declared.headers :=
        (DependencyIndex.build_declared _ _).symm
    _ = .build c.declared.modules c.declared.headers := by rw [h]
    _ = .build c.modules c.headers := DependencyIndex.build_declared _ _

/-- The dependents of a name are the modules that list it. -/
theorem IsBuilt.mem_hardDependents (hc : c.IsBuilt) {name dep : String} :
    name ∈ c.hardDependents dep ↔ ∃ m, c.module? name = some m ∧ dep ∈ m.depends := by
  rw [hardDependents, hc.index_eq]
  refine DependencyIndex.mem_dependents_build.trans ⟨?_, ?_⟩
  · rintro ⟨m, hm, rfl, hdep⟩
    exact ⟨m, hc.mem_values_iff.1 hm, hdep⟩
  · rintro ⟨m, hm, hdep⟩
    obtain rfl := hc.name_eq hm
    exact ⟨m, hc.mem_values_iff.2 hm, rfl, hdep⟩

theorem IsBuilt.nodup_hardDependents (hc : c.IsBuilt) (dep : String) :
    (c.hardDependents dep).Nodup := by
  rw [hardDependents, hc.index_eq]
  exact DependencyIndex.nodup_dependents_build _ _ dep

/-- The gates of a name are the flags, in the headers that modules are bound to, that require it. -/
theorem IsBuilt.mem_conditionalGates (hc : c.IsBuilt) {gate : ParamRef} {dep : String} :
    gate ∈ c.conditionalGates dep
      ↔ ∃ m h p, c.module? gate.module = some m ∧ m.configuration = some gate.configuration
          ∧ c.headers.get? gate.configuration = some h ∧ h.get? gate.name = some p
          ∧ p.type = .boolean ∧ dep ∈ p.conditionalDeps := by
  rw [conditionalGates, hc.index_eq]
  refine DependencyIndex.mem_gates_build.trans ⟨?_, ?_⟩
  · rintro ⟨m, hm, e, he, rfl, hdep⟩
    obtain ⟨path, h, p, hpath, hh, hp, htype, rfl⟩ := DependencyIndex.mem_gatesOf.1 he
    exact ⟨m, h, p, hc.mem_values_iff.1 hm, hpath, hh, Header.get?_eq_some_iff.2 ⟨hp, rfl⟩, htype,
      hdep⟩
  · rintro ⟨m, h, p, hm, hpath, hh, hget, htype, hdep⟩
    obtain ⟨hp, hname⟩ := Header.get?_eq_some_iff.1 hget
    have hmodule := hc.name_eq hm
    refine ⟨m, hc.mem_values_iff.2 (hmodule ▸ hm), (gate, p.conditionalDeps), ?_, rfl, hdep⟩
    refine DependencyIndex.mem_gatesOf.2 ⟨gate.configuration, h, p, hpath, hh, hp, htype, ?_⟩
    rw [hmodule, hname]

end Catalog

end Configurator
