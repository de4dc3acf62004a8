import Configurator.Catalog.Update

/-!
# Selecting modules

Selecting a module enables it and, from dependency to dependency, all that is not enabled yet.
Unselecting a module disables it and, from dependent to dependent, all that listed it. What is only a
suggestion is reported and left to the caller: boolean parameters that still require a module which is
gone, and modules that were only there for one.

Both walks go depth first in the order of the lists, and both end because each step changes the state
of one more module.
-/

namespace Configurator.Catalog

/-! ## Bare files -/

/-- One reference more to a file. -/
def addRef (refs : NameMap Nat) (file : String) : NameMap Nat :=
  refs.insert file ((refs.get? file).getD 0 + 1)

/-- One reference less to a file; there is no entry for a file without references. -/
def dropRef (refs : NameMap Nat) (file : String) : NameMap Nat :=
  match refs.get? file with
  | none => refs
  | some n => if n ≤ 1 then refs.erase file else refs.insert file (n - 1)

/-- The bare files that a module depends on while it is enabled. -/
def bareFiles (c : Catalog) (name : String) : List String :=
  if c.isEnabled name then (c.effectiveDeps name).filter (!c.isModule ·) else []

/-- Puts the bare files that a module depends on now in place of those that it depended on before. -/
def refreshContribution (c : Catalog) (name : String) : Catalog :=
  let files := c.bareFiles name
  let previous := (c.contributions.get? name).getD []
  { c with
    contributions :=
      if files = [] then c.contributions.erase name else c.contributions.insert name files
    fileRefs := files.foldl addRef (previous.foldl dropRef c.fileRefs) }

/-! ## Single modules -/

def setEnabled (c : Catalog) (name : String) (enabled : Bool) : Catalog :=
  { c with modules := c.modules.modify name fun m => { m with enabled } }

/-- Enables one module. -/
def switchOn (c : Catalog) (name : String) : Catalog :=
  (c.setEnabled name true).refreshContribution name

/-- Disables one module, which is no longer asked for either. -/
def switchOff (c : Catalog) (name : String) : Catalog :=
  let c := c.setEnabled name false
  { c with explicit := c.explicit.erase name }.refreshContribution name

/-- How many modules are not enabled. -/
def disabledCount (c : Catalog) : Nat :=
  c.modules.count (!·.enabled)

/-- How many modules are enabled. -/
def enabledCount (c : Catalog) : Nat :=
  c.modules.count (·.enabled)

theorem disabledCount_switchOn_lt {c : Catalog} {name : String} (hm : c.isModule name = true)
    (he : c.isEnabled name = false) : (c.switchOn name).disabledCount < c.disabledCount := by
  obtain ⟨m, hm⟩ := isModule_iff.1 hm
  have hdis : m.enabled = false := by simpa [isEnabled, hm] using he
  exact NameMap.count_modify_lt (p := (!·.enabled)) (f := fun m => { m with enabled := true })
    (fun _ => rfl) hm (by simp [hdis])

theorem enabledCount_switchOff_lt {c : Catalog} {name : String} (he : c.isEnabled name = true) :
    (c.switchOff name).enabledCount < c.enabledCount := by
  obtain ⟨m, hm, hen⟩ := isEnabled_iff.1 he
  exact NameMap.count_modify_lt (p := (·.enabled)) (f := fun m => { m with enabled := false })
    (fun _ => rfl) hm hen

/-! ## Enabling -/

/-- Enables the modules of a list that are not enabled, each followed by what it depends on, and names
them in the order in which that happens. -/
def pull (c : Catalog) : List String → Catalog × List String
  | [] => (c, [])
  | dep :: rest =>
    if _h : c.isModule dep = true ∧ c.isEnabled dep = false then
      let c' := c.switchOn dep
      let (after, names) := pull c' (c'.effectiveDeps dep ++ rest)
      (after, dep :: names)
    else pull c rest
termination_by deps => (c.disabledCount, deps.length)
decreasing_by
  · exact Prod.Lex.left _ _ (disabledCount_switchOn_lt ‹_ ∧ _›.1 ‹_ ∧ _›.2)
  · exact Prod.Lex.right _ (by simp)

/-- What selecting a module changed. -/
structure Selected where
  module : String
  /-- The other modules that were enabled. -/
  autoEnabled : List String
  deriving DecidableEq, Inhabited, Repr

/-- Asks for a module and enables it with all that it needs. -/
def Update.select (name : String) : Update Selected := do
  discard <| check ((← get).requireModule name)
  modify fun c => { c with explicit := c.explicit.insert name }
  modify (·.switchOn name)
  let autoEnabled ← modifyGet fun c => (c.pull (c.effectiveDeps name)).swap
  return { module := name, autoEnabled }

/-- `Update.select` as a function that gives the catalogue after it, or fails. -/
def select (c : Catalog) (name : String) : Except Error (Selected × Catalog) :=
  (Update.select name).outcome c

/-! ## Disabling -/

/-- Disables the enabled modules of a list, each followed by those that list it among their
dependencies, and names them in the order in which that happens. -/
def cascade (c : Catalog) : List String → Catalog × List String
  | [] => (c, [])
  | name :: rest =>
    if _h : c.isEnabled name = true then
      let c' := c.switchOff name
      let (after, names) := cascade c' (c'.hardDependents name ++ rest)
      (after, name :: names)
    else cascade c rest
termination_by names => (c.enabledCount, names.length)
decreasing_by
  · exact Prod.Lex.left _ _ (enabledCount_switchOff_lt ‹_›)
  · exact Prod.Lex.right _ (by simp)

/-- Whether a module is enabled and none of those to ignore. -/
def isLive (c : Catalog) (ignoring : List String) (name : String) : Bool :=
  c.isEnabled name && name ∉ ignoring

/-- Whether an enabled module, other than those to ignore, depends on a name now. -/
def isRequired (c : Catalog) (name : String) (ignoring : List String) : Bool :=
  (c.hardDependents name).any (c.isLive ignoring)
    || (c.conditionalGates name).any fun gate => c.isLive ignoring gate.module && c.isSet gate

/-- Whether a module is enabled although nothing but modules to ignore needs it. -/
def isIdle (c : Catalog) (ignoring : List String) (name : String) : Bool :=
  name ∉ ignoring && c.isEnabled name && !c.isExplicit name && !c.isRequired name ignoring

/-- How many enabled modules are not among the given ones. -/
def unlistedCount (c : Catalog) (names : List String) : Nat :=
  c.modules.entries.countP fun e => e.2.enabled && e.1 ∉ names

theorem unlistedCount_append_lt {c : Catalog} {names : List String} {name : String}
    (he : c.isEnabled name = true) (hn : name ∉ names) :
    c.unlistedCount (names ++ [name]) < c.unlistedCount names := by
  obtain ⟨m, hm, hen⟩ := isEnabled_iff.1 he
  obtain ⟨before, behind, hsplit⟩ := List.append_of_mem (NameMap.get?_eq_some_iff.1 hm)
  have hle (es : List (String × Module)) :
      es.countP (fun e => e.2.enabled && e.1 ∉ names ++ [name])
        ≤ es.countP fun e => e.2.enabled && e.1 ∉ names :=
    List.countP_mono_left fun e _ h => by
      simp only [List.mem_append, List.mem_singleton, not_or, Bool.and_eq_true,
        decide_eq_true_eq] at h ⊢
      exact ⟨h.1, h.2.1⟩
  have h1 := hle before
  have h2 := hle behind
  unfold unlistedCount
  rw [hsplit, List.countP_append, List.countP_append, List.countP_cons_of_neg (by simp),
    List.countP_cons_of_pos (by simp [hen, hn])]
  omega

/-- Goes through candidates for release again and again until none is idle. Each one that is released
makes the modules that it depends on candidates too. `todo` is what is left of this round, and
`progress` says whether it released anything. -/
def sweep (c : Catalog) (candidates released : List String) (progress : Bool)
    (todo : List String) : List String :=
  match todo with
  | [] => if progress then sweep c candidates released false candidates else released
  | name :: todo =>
    if _h : c.isIdle released name = true then
      let new := ((c.effectiveDeps name).filter c.isModule).foldl (fun new dep =>
        if dep ∈ candidates then new else addNew new dep) []
      sweep c (candidates ++ new) (released ++ [name]) true (todo ++ new)
    else sweep c candidates released progress todo
termination_by (c.unlistedCount released, progress.toNat, todo.length)
decreasing_by
  · simp_all [Prod.lex_def]
  · have h := ‹c.isIdle released name = true›
    simp only [isIdle, Bool.and_eq_true, decide_eq_true_eq] at h
    exact Prod.Lex.left _ _ (unlistedCount_append_lt h.1.1.2 h.1.1.1)
  · simp [Prod.lex_def]

/-- The modules among the candidates and what they depend on that no enabled module needs, but for
each other. -/
def orphansOf (c : Catalog) (candidates : List String) : List String :=
  c.sweep candidates [] false candidates

/-- What unselecting a module changed, and what it suggests. -/
structure Unselected where
  module : String
  /-- The other modules that were disabled. -/
  disabled : List String
  /-- Set parameters of enabled modules that require a module which is gone. -/
  unsatisfied : List ParamRef
  /-- Enabled modules that nothing needs any more. -/
  orphans : List String
  deriving DecidableEq, Inhabited, Repr

/-- The modules that some modules depend on, each once. -/
def dependenciesOf (c : Catalog) (names : List String) : List String :=
  ((names.flatMap c.effectiveDeps).filter c.isModule).foldl addNew []

/-- Set parameters of enabled modules that require one of the given names, in order. -/
def unsatisfiedBy (c : Catalog) (names : List String) : List ParamRef :=
  let gates := (names.flatMap c.conditionalGates).filter fun gate =>
    c.isEnabled gate.module && c.isSet gate
  (gates.foldl (fun found gate => if gate ∈ found then found else found ++ [gate]) []).mergeSort
    ParamRef.le

/-- Disables a module and all that list it among their dependencies. -/
def withdraw (c : Catalog) (name : String) : Unselected × Catalog :=
  let after := c.switchOff name
  let (after, disabled) := after.cascade (after.hardDependents name)
  let removed := name :: disabled
  ({ module := name
     disabled
     unsatisfied := after.unsatisfiedBy removed
     orphans := after.orphansOf (c.dependenciesOf removed) }, after)

/-- Disables a module and all that list it among their dependencies, if there is such a module. -/
def Update.unselect (name : String) : Update Unselected := do
  discard <| check ((← get).requireModule name)
  modifyGet (·.withdraw name)

/-- `Update.unselect` as a function that gives the catalogue after it, or fails. -/
def unselect (c : Catalog) (name : String) : Except Error (Unselected × Catalog) :=
  (Update.unselect name).outcome c

/-- Unselects those of some modules that are still enabled when their turn comes. -/
def release (c : Catalog) : List String → List Unselected × Catalog
  | [] => ([], c)
  | name :: names =>
    if c.isEnabled name then
      let (outcome, c) := c.withdraw name
      let (outcomes, c) := c.release names
      (outcome :: outcomes, c)
    else c.release names

end Configurator.Catalog
