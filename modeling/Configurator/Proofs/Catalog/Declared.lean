import Configurator.Project.Restore
import Mathlib.Data.List.Forall2
import Mathlib.Data.List.Nodup

/-!
# What no operation changes

A catalogue consists of what its source tree declares and of a state: which modules are enabled and
asked for, the values of parameters, and the bare files that are in use. `Catalog.declared` clears the
state, so that two catalogues with one declared part are states of one tree. Every step of the walks
and every change of a value keeps the declared part, and with it all that only depends on that: which
names are modules, what modules list, the index, and which header a module is bound to.
-/

namespace Configurator

/-! ## Declared parts -/

/-- A module apart from whether it is enabled. -/
def Module.declared (m : Module) : Module :=
  { m with enabled := false }

/-- A parameter apart from its value. -/
def Parameter.declared (p : Parameter) : Parameter :=
  { p with value := "", long := false, unsigned := false }

/-- A header apart from the values of its parameters. -/
def Header.declared (h : Header) : Header :=
  h.mapParams Parameter.declared

/-- A catalogue apart from its state. -/
def Catalog.declared (c : Catalog) : Catalog :=
  { c with
    modules := c.modules.map fun _ => Module.declared
    headers := c.headers.map fun _ => Header.declared
    fileRefs := .empty
    contributions := .empty
    explicit := .empty }

/-! ## Headers -/

namespace Header

theorem ext {h k : Header} (hpath : h.path = k.path) (hparams : h.params = k.params)
    (hsource : h.source = k.source) : h = k := by
  cases h
  cases k
  simp_all

theorem declared_mapParams {h : Header} {f : Parameter → Parameter}
    (hf : ∀ p ∈ h.params, (f p).declared = p.declared) : (h.mapParams f).declared = h.declared := by
  refine ext rfl ?_ rfl
  simp only [declared, mapParams, List.map_map, List.map_inj_left, Function.comp_apply]
  intro p hp
  have hfp := hf p hp
  simp only [Parameter.declared, Parameter.mk.injEq] at hfp ⊢
  simp_all

/-- The declared parameters are those of the header, each declared. -/
theorem params_declared (h : Header) : h.declared.params = h.params.map Parameter.declared := rfl

theorem source_of_declared {h k : Header} (hdecl : k.declared = h.declared) : k.source = h.source := by
  have hsource := congrArg Header.source hdecl
  exact hsource

/-- Headers with one declared part have the same parameters, up to their values. -/
theorem forall₂_of_declared {h k : Header} (hdecl : k.declared = h.declared) :
    List.Forall₂ (fun p q : Parameter => q.declared = p.declared) h.params k.params := by
  have hmap : k.params.map Parameter.declared = h.params.map Parameter.declared :=
    congrArg (·.params) hdecl
  rw [← List.forall₂_eq_eq_eq, List.forall₂_map_left_iff, List.forall₂_map_right_iff] at hmap
  exact hmap.flip

theorem get?_declared (h : Header) (name : String) :
    h.declared.get? name = (h.get? name).map Parameter.declared := by
  rw [get?, params_declared, List.find?_map]
  rfl

theorem get?_eq_some_iff {h : Header} {name : String} {p : Parameter} :
    h.get? name = some p ↔ p ∈ h.params ∧ p.name = name := by
  constructor
  · intro hp
    exact ⟨List.mem_of_find?_eq_some hp, by simpa using List.find?_some hp⟩
  · rintro ⟨hp, rfl⟩
    cases hfind : h.get? p.name with
    | none => simpa using List.find?_eq_none.1 hfind p hp
    | some q =>
        have hq := List.mem_of_find?_eq_some hfind
        have hname : q.name = p.name := by simpa using List.find?_some hfind
        rw [List.inj_on_of_nodup_map h.names_nodup hq hp hname]

theorem get?_mapParams (h : Header) (f : Parameter → Parameter) (name : String) :
    (h.mapParams f).get? name
      = (h.get? name).map fun p => { f p with name := p.name, span := p.span } := by
  rw [get?, mapParams, List.find?_map]
  rfl

/-- What an update does to the parameter with a name. -/
theorem get?_update (h : Header) (name other : String) (f : Parameter → Parameter) :
    (h.update name f).get? other
      = (h.get? other).map fun p =>
          { (if p.name = name then f p else p) with name := p.name, span := p.span } :=
  get?_mapParams h _ other

end Header

/-! ## Accepted values -/

namespace Parameter

theorem booleanForm?_eq {text value : String} (h : booleanForm? text = some value) :
    value = "0" ∨ value = "1" := by
  unfold booleanForm? at h
  dsimp only at h
  split at h
  · exact .inr (Option.some.inj h).symm
  · split at h
    · exact .inl (Option.some.inj h).symm
    · cases h

/-- An integer is kept without its suffixes, and they are added to those of the parameter. -/
theorem acceptInteger_eq_ok {p q : Parameter} {text : String} (h : p.acceptInteger text = .ok q) :
    ∃ literal n, literal = IntegerLiteral.ofValue (String.ofList (Text.trim text.toList))
      ∧ readInteger? literal.digits.toList = some n ∧ p.outOfBounds? n = none
      ∧ q = { p with
          value := literal.digits
          long := p.long || literal.long
          unsigned := p.unsigned || literal.unsigned } := by
  unfold acceptInteger at h
  dsimp only at h
  split at h
  · simp at h
  · next n hn =>
    split at h
    · simp at h
    · next hbounds =>
      simp only [Except.ok.injEq] at h
      exact ⟨_, n, rfl, hn, hbounds, h.symm⟩

/-- What a parameter that takes a value becomes, by its type. -/
theorem accept_eq_ok {p q : Parameter} {choices : Option ValueList} {text : String}
    (h : p.accept choices text = .ok q) :
    (p.type = .boolean ∧ ∃ value, booleanForm? text = some value ∧ q = { p with value })
      ∨ (p.type = .integer ∧ p.acceptInteger text = .ok q)
      ∨ ((p.type = .enum ∨ p.type = .text)
        ∧ q = { p with value := String.ofList (Text.trim text.toList) }) := by
  unfold accept at h
  cases htype : p.type with
  | autoenabled => simp [htype] at h
  | boolean =>
      cases hform : booleanForm? text with
      | none => simp [htype, hform] at h
      | some value =>
          simp only [htype, hform, Except.ok.injEq] at h
          exact .inl ⟨rfl, value, rfl, h.symm⟩
  | integer =>
      simp only [htype] at h
      exact .inr (.inl ⟨rfl, h⟩)
  | enum =>
      simp only [htype] at h
      cases choices with
      | none =>
          simp only [Except.ok.injEq] at h
          exact .inr (.inr ⟨.inl rfl, h.symm⟩)
      | some list =>
          by_cases hlisted : String.ofList (Text.trim text.toList) ∈ list.values
          · simp only [hlisted, if_true, Except.ok.injEq] at h
            exact .inr (.inr ⟨.inl rfl, h.symm⟩)
          · simp [hlisted] at h
  | text =>
      simp only [htype, Except.ok.injEq] at h
      exact .inr (.inr ⟨.inr rfl, h.symm⟩)

/-- Taking a value changes nothing that is declared. -/
theorem declared_accept {p q : Parameter} {choices : Option ValueList} {text : String}
    (h : p.accept choices text = .ok q) : q.declared = p.declared := by
  rcases accept_eq_ok h with ⟨-, value, -, rfl⟩ | ⟨-, hint⟩ | ⟨-, rfl⟩
  · rfl
  · obtain ⟨literal, n, -, -, -, rfl⟩ := acceptInteger_eq_ok hint
    rfl
  · rfl

/-- Taking a value takes no suffix away. -/
theorem suffixes_accept {p q : Parameter} {choices : Option ValueList} {text : String}
    (h : p.accept choices text = .ok q) :
    (p.unsigned = true → q.unsigned = true) ∧ (p.long = true → q.long = true) := by
  rcases accept_eq_ok h with ⟨-, value, -, rfl⟩ | ⟨-, hint⟩ | ⟨-, rfl⟩
  · exact ⟨id, id⟩
  · obtain ⟨literal, n, -, -, -, rfl⟩ := acceptInteger_eq_ok hint
    exact ⟨fun h => by simp [h], fun h => by simp [h]⟩
  · exact ⟨id, id⟩

/-- Parameters with one declared part differ at most in the value and its suffixes. -/
theorem eq_of_declared {p q : Parameter} (hdecl : q.declared = p.declared) {value : String}
    {unsigned long : Bool} (hvalue : value = q.value) (hunsigned : unsigned = q.unsigned)
    (hlong : long = q.long) : { p with value, unsigned, long } = q := by
  subst hvalue hunsigned hlong
  cases p
  cases q
  simp only [declared, Parameter.mk.injEq] at hdecl ⊢
  simp_all

theorem declared_takeValue (p other : Parameter) : (Header.takeValue p other).declared = p.declared := by
  unfold Header.takeValue
  split <;> rfl

end Parameter

/-! ## Maps whose values change -/

theorem NameMap.map_modify {α β : Type} {f : α → α} {g : α → β} {m : NameMap α} {name : String}
    (hfg : ∀ v, m.get? name = some v → g (f v) = g v) :
    ((m.modify name f).map fun _ => g) = m.map fun _ => g := by
  refine ext_get? ?_
  intro other
  rw [get?_map, get?_map, get?_modify]
  split
  · next heq =>
    subst heq
    cases hv : m.get? other with
    | none => rfl
    | some v => simp [hfg v hv]
  · rfl

namespace Catalog

variable {c d : Catalog}

/-! ## What the declared part decides -/

theorem module?_declared (c : Catalog) (name : String) :
    c.declared.module? name = (c.module? name).map Module.declared :=
  NameMap.get?_map _ _ _

theorem get?_headers_declared (c : Catalog) (path : String) :
    c.declared.headers.get? path = (c.headers.get? path).map Header.declared :=
  NameMap.get?_map _ _ _

/-- A module of one state in another state of the same tree. -/
theorem exists_module? (h : c.declared = d.declared) {name : String} {m : Module}
    (hm : c.module? name = some m) : ∃ m', d.module? name = some m' ∧ m'.declared = m.declared := by
  have hd := module?_declared d name
  rw [← h, module?_declared c name, hm] at hd
  obtain ⟨m', hm', heq⟩ := Option.map_eq_some_iff.1 hd.symm
  exact ⟨m', hm', heq⟩

theorem module?_eq_none (h : c.declared = d.declared) {name : String} (hc : c.module? name = none) :
    d.module? name = none := by
  have hd := module?_declared d name
  rw [← h, module?_declared c name, hc, Option.map_none] at hd
  exact Option.map_eq_none_iff.1 hd.symm

/-- A header of one state in another state of the same tree. -/
theorem exists_header (h : c.declared = d.declared) {path : String} {k : Header}
    (hk : c.headers.get? path = some k) :
    ∃ k', d.headers.get? path = some k' ∧ k'.declared = k.declared := by
  have hd := get?_headers_declared d path
  rw [← h, get?_headers_declared c path, hk] at hd
  obtain ⟨k', hk', heq⟩ := Option.map_eq_some_iff.1 hd.symm
  exact ⟨k', hk', heq⟩

theorem depends_eq {m m' : Module} (h : m'.declared = m.declared) : m'.depends = m.depends := by
  have := congrArg Module.depends h
  exact this

theorem configuration_eq {m m' : Module} (h : m'.declared = m.declared) :
    m'.configuration = m.configuration := by
  have := congrArg Module.configuration h
  exact this

theorem isModule_congr (h : c.declared = d.declared) (name : String) :
    c.isModule name = d.isModule name := by
  have hc : c.declared.isModule name = c.isModule name := by
    simp [isModule, NameMap.contains, declared, NameMap.get?_map]
  have hd : d.declared.isModule name = d.isModule name := by
    simp [isModule, NameMap.contains, declared, NameMap.get?_map]
  rw [← hc, ← hd, h]

theorem index_congr (h : c.declared = d.declared) : c.index = d.index := by
  have := congrArg Catalog.index h
  exact this

theorem lists_congr (h : c.declared = d.declared) : c.lists = d.lists := by
  have := congrArg Catalog.lists h
  exact this

theorem hardDependents_congr (h : c.declared = d.declared) (name : String) :
    c.hardDependents name = d.hardDependents name := by
  rw [hardDependents, hardDependents, index_congr h]

/-! ## Single steps -/

theorem declared_setEnabled (c : Catalog) (name : String) (enabled : Bool) :
    (c.setEnabled name enabled).declared = c.declared := by
  have hmap : ((c.modules.modify name fun m => { m with enabled }).map fun _ => Module.declared)
      = c.modules.map fun _ => Module.declared := NameMap.map_modify fun _ _ => rfl
  simp only [declared, setEnabled, hmap]

theorem declared_refreshContribution (c : Catalog) (name : String) :
    (c.refreshContribution name).declared = c.declared := rfl

theorem declared_switchOn (c : Catalog) (name : String) :
    (c.switchOn name).declared = c.declared := by
  rw [switchOn, declared_refreshContribution, declared_setEnabled]

theorem declared_switchOff (c : Catalog) (name : String) :
    (c.switchOff name).declared = c.declared := by
  rw [switchOff, declared_refreshContribution]
  exact declared_setEnabled c name false

theorem declared_modifyHeader {path : String} {f : Header → Header}
    (hf : ∀ h, c.headers.get? path = some h → (f h).declared = h.declared) :
    (c.modifyHeader path f).declared = c.declared := by
  have hmap : ((c.headers.modify path f).map fun _ => Header.declared)
      = c.headers.map fun _ => Header.declared := NameMap.map_modify hf
  simp only [declared, modifyHeader, hmap]

/-! ## Walks -/

/-- What refreshing single modules keeps is kept by refreshing all of a list. -/
theorem refreshAll_induction {P : Catalog → Prop}
    (hrefresh : ∀ c name, P c → P (c.refreshContribution name)) (names : List String) (hc : P c) :
    P (c.refreshAll names) :=
  List.foldlRecOn (motive := P) names _ hc fun d hd name _ => hrefresh d name hd

/-- What enabling single modules keeps is kept by enabling all that a list needs. -/
theorem pull_induction {P : Catalog → Prop} (hon : ∀ c name, P c → P (c.switchOn name))
    (todo : List String) (hc : P c) : P (c.pull todo).1 := by
  fun_induction pull c todo with
  | case1 c => exact hc
  | case2 c dep rest _ c' after names heq ih =>
      rw [heq] at ih
      exact ih (hon c dep hc)
  | case3 c dep rest _ ih => exact ih hc

/-- What disabling single modules keeps is kept by disabling all that depend on a list. -/
theorem cascade_induction {P : Catalog → Prop} (hoff : ∀ c name, P c → P (c.switchOff name))
    (todo : List String) (hc : P c) : P (c.cascade todo).1 := by
  fun_induction cascade c todo with
  | case1 c => exact hc
  | case2 c name rest _ c' after names heq ih =>
      rw [heq] at ih
      exact ih (hoff c name hc)
  | case3 c name rest _ ih => exact ih hc

theorem declared_refreshAll (c : Catalog) (names : List String) :
    (c.refreshAll names).declared = c.declared :=
  refreshAll_induction (P := fun d => d.declared = c.declared)
    (fun d name hd => (declared_refreshContribution d name).trans hd) names rfl

theorem declared_pull (c : Catalog) (todo : List String) : (c.pull todo).1.declared = c.declared :=
  pull_induction (P := fun d => d.declared = c.declared)
    (fun d name hd => (declared_switchOn d name).trans hd) todo rfl

theorem declared_cascade (c : Catalog) (todo : List String) :
    (c.cascade todo).1.declared = c.declared :=
  cascade_induction (P := fun d => d.declared = c.declared)
    (fun d name hd => (declared_switchOff d name).trans hd) todo rfl

end Catalog

end Configurator
