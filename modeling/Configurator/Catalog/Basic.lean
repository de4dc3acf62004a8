import Configurator.Header.Basic
import Configurator.Module
import Configurator.NameSet
import Configurator.Support
import Configurator.ValueList

/-!
# Catalogues

A catalogue holds the modules, headers and value lists of a source tree, and which modules are enabled.
What a module depends on is looked up forwards, from its definition and the parameters that are set;
what depends on it is looked up backwards in an index that is built once, with the catalogue.
-/

namespace Configurator

/-- For each name what may depend on it. -/
structure DependencyIndex where
  /-- Modules that list the name among their dependencies. -/
  dependents : NameMap (List String)
  /-- Boolean parameters that require the name while they are set. -/
  gates : NameMap (List ParamRef)
  deriving DecidableEq, Inhabited, Repr

structure Catalog where
  sourceRoot : String
  modules : NameMap Module
  /-- By path. -/
  headers : NameMap Header
  lists : NameMap ValueList
  index : DependencyIndex
  /-- For each bare file that an enabled module depends on how many times that is. -/
  fileRefs : NameMap Nat
  /-- For each enabled module the bare files that it depends on, unless there are none. -/
  contributions : NameMap (List String)
  /-- The modules that were asked for, unlike those that others needed. -/
  explicit : NameSet
  deriving DecidableEq, Inhabited, Repr

/-! ## Building -/

namespace DependencyIndex

/-- The boolean parameters of a module's header with what each of them may require. -/
def gatesOf (headers : NameMap Header) (m : Module) : List (ParamRef × List String) :=
  match m.configuration with
  | none => []
  | some path =>
    match headers.get? path with
    | none => []
    | some h =>
      (h.params.filter (·.type = .boolean)).map fun p =>
        (⟨m.name, path, p.name⟩, p.conditionalDeps)

/-- Adds a value to the list of a name. -/
def push {α : Type} (lists : NameMap (List α)) (name : String) (value : α) : NameMap (List α) :=
  lists.insert name ((lists.get? name).getD [] ++ [value])

/-- Adds what a module depends on. It counts once as a dependent of each name. -/
def add (headers : NameMap Header) (index : DependencyIndex) (m : Module) : DependencyIndex where
  dependents := m.depends.foldl (fun lists dep =>
    if m.name ∈ (lists.get? dep).getD [] then lists else push lists dep m.name) index.dependents
  gates := (gatesOf headers m).foldl (fun lists (gate, deps) =>
    deps.foldl (fun lists dep => push lists dep gate) lists) index.gates

/-- The index of modules and headers. -/
def build (modules : NameMap Module) (headers : NameMap Header) : DependencyIndex :=
  modules.values.foldl (add headers) ⟨.empty, .empty⟩

end DependencyIndex

namespace Catalog

/-- Of modules with one name the first, none of them enabled. -/
def collectModules (modules : List Module) : NameMap Module :=
  modules.foldl (fun found m =>
    if found.contains m.name then found else found.insert m.name { m with enabled := false }) .empty

/-- The catalogue of some parts, with no module enabled. -/
def build (sourceRoot : String) (modules : List Module) (headers : List Header)
    (lists : List ValueList) : Catalog :=
  let modules := collectModules modules
  let headers := NameMap.ofList (headers.map fun h => (h.path, h))
  { sourceRoot
    modules
    headers
    lists := .ofList (lists.map fun l => (l.name, l))
    index := .build modules headers
    fileRefs := .empty
    contributions := .empty
    explicit := .empty }

/-! ## Modules -/

def module? (c : Catalog) (name : String) : Option Module :=
  c.modules.get? name

def requireModule (c : Catalog) (name : String) : Except Error Module :=
  match c.module? name with
  | some m => .ok m
  | none => .error (.unknownModule name)

def isModule (c : Catalog) (name : String) : Bool :=
  c.modules.contains name

def isEnabled (c : Catalog) (name : String) : Bool :=
  (c.module? name).any (·.enabled)

theorem isModule_iff {c : Catalog} {name : String} :
    c.isModule name = true ↔ ∃ m, c.module? name = some m :=
  Option.isSome_iff_exists

theorem isEnabled_iff {c : Catalog} {name : String} :
    c.isEnabled name = true ↔ ∃ m, c.module? name = some m ∧ m.enabled = true := by
  unfold isEnabled
  cases c.module? name <;> simp

def isExplicit (c : Catalog) (name : String) : Bool :=
  c.explicit.contains name

/-- The enabled modules in the order of their names. -/
def enabledModules (c : Catalog) : List Module :=
  c.modules.values.filter (·.enabled)

/-! ## Parameters -/

/-- The header that a module is bound to, if there is one. -/
def moduleHeader? (c : Catalog) (name : String) : Option Header :=
  ((c.module? name).bind (·.configuration)).bind c.headers.get?

def parameter (c : Catalog) (configuration name : String) : Except Error Parameter :=
  match c.headers.get? configuration with
  | none => .error (.unknownConfiguration configuration)
  | some h =>
    match h.get? name with
    | none => .error (.unknownParameter configuration name)
    | some p => .ok p

/-- Whether a reference leads to a boolean parameter that is set. -/
def isSet (c : Catalog) (r : ParamRef) : Bool :=
  match c.parameter r.configuration r.name with
  | .ok p => p.isSet
  | .error _ => false

/-! ## Dependencies -/

def fileRefCount (c : Catalog) (name : String) : Nat :=
  (c.fileRefs.get? name).getD 0

/-- Modules that list a name among their dependencies. -/
def hardDependents (c : Catalog) (name : String) : List String :=
  (c.index.dependents.get? name).getD []

/-- Boolean parameters that require a name while they are set. -/
def conditionalGates (c : Catalog) (name : String) : List ParamRef :=
  (c.index.gates.get? name).getD []

/-- What the set parameters of a module's header require. -/
def conditionalDeps (c : Catalog) (name : String) : List String :=
  match c.moduleHeader? name with
  | some h => h.params.flatMap (·.activeDeps)
  | none => []

/-- Adds a name to the end of a list that does not hold it. -/
def addNew (names : List String) (name : String) : List String :=
  if name ∈ names then names else names ++ [name]

/-- What a module depends on now: the dependencies that it lists, then what its set parameters
require. -/
def effectiveDeps (c : Catalog) (name : String) : List String :=
  match c.module? name with
  | none => []
  | some m => (c.conditionalDeps name).foldl addNew m.depends

/-! ## Support -/

def moduleSupport (c : Catalog) (name : String) (env : TagEnvironment) : Support :=
  .of ((c.module? name).bind (·.supports)) env

end Catalog

end Configurator
