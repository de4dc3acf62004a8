import Configurator.Catalog.Assignment
import Configurator.Project.Basic

/-!
# Selections of projects

A project records which modules of a catalogue are enabled and what values the parameters have, and
brings a fresh catalogue to that state again. Headers that were generated before may have been changed
by hand; their values come first.
-/

namespace Configurator.Project

open Catalog (Update)

/-- Takes values over from the header in a directory that was generated for one of the catalogue. -/
def takeCopy (tree : FileTree) (configDir path : String) : Update Nat := do
  match Path.fileName? path with
  | none => return 0
  | some name =>
    let file := Path.join configDir name
    if tree.isFile file then
      let text ← Update.check ((tree.read file).mapError .io)
      Update.applyUserConfiguration path text
    else return 0

/-- Takes values over for some headers in turn, and says how many. -/
def takeCopies (tree : FileTree) (configDir : String) : List String → Update Nat
  | [] => return 0
  | path :: paths => do
    let merged ← takeCopy tree configDir path
    let others ← takeCopies tree configDir paths
    return merged + others

/-- Takes values over for one header. -/
def mergeHeader (tree : FileTree) (configDir : String) (c : Catalog) (path : String) :
    Except Error (Nat × Catalog) :=
  (takeCopy tree configDir path).outcome c

/-- Takes values over for some headers. What was taken over before an error stays. -/
def mergeHeaders (tree : FileTree) (configDir : String) (c : Catalog) (paths : List String) :
    Except Error Nat × Catalog :=
  (takeCopies tree configDir paths).runOn c

/-- Takes values over from the generated headers in a directory. -/
def mergeGenerated (tree : FileTree) (configDir : String) (c : Catalog) :
    Except Error Nat × Catalog :=
  mergeHeaders tree configDir c c.headers.keys

/-! ## Recording -/

/-- The values of a header by name, those apart that follow a module. -/
def valuesOf (h : Header) : NameMap String :=
  .ofList ((h.params.filter (·.type ≠ .autoenabled)).map fun p => (p.name, p.rendered))

/-- The project with the state of a catalogue. Only headers of enabled modules count. -/
def capture (p : Project) (c : Catalog) : Project :=
  let names := c.enabledModules.map (·.name)
  { p with
    enabledModules := names
    explicitModules := names.filter c.isExplicit
    parameters := .ofList (names.filterMap fun name =>
      (c.moduleHeader? name).map fun h => (h.path, valuesOf h)) }

/-! ## Bringing back -/

/-- Gives a parameter its recorded value. A value that cannot be given is missing. -/
def restoreValue (state : List String × Catalog) (path name value : String) :
    List String × Catalog :=
  match (Update.setParameter path name value).runOn state.2 with
  | (.ok _, c) => (state.1, c)
  | (.error _, c) => (state.1 ++ [path ++ ":" ++ name], c)

def restoreValues (p : Project) (c : Catalog) : List String × Catalog :=
  p.parameters.entries.foldl (fun state (path, values) =>
    values.entries.foldl (fun state (name, value) => restoreValue state path name value) state)
    ([], c)

/-- The recorded modules that were asked for: all if none are told apart. -/
def askedFor (p : Project) : List String :=
  if p.explicitModules = [] then p.enabledModules else p.explicitModules

/-- Selects a recorded module, unless it is enabled already and was not asked for. A name that is no
module is missing, and named once. -/
def restoreModule (p : Project) (state : List String × Catalog) (name : String) :
    List String × Catalog :=
  if state.2.isEnabled name && name ∉ p.askedFor then state
  else
    match (Update.select name).runOn state.2 with
    | (.ok _, c) => (state.1, c)
    | (.error _, c) => (Catalog.addNew state.1 name, c)

/-- Keeps of the modules that were asked for only certain ones. -/
def retainExplicit (c : Catalog) (names : List String) : Catalog :=
  { c with explicit := .ofList (c.explicit.toList.filter (· ∈ names)) }

/-- Brings a catalogue to the recorded state, and names what is missing from it. -/
def applyTo (p : Project) (c : Catalog) : List String × Catalog :=
  let state := (p.enabledModules ++ p.explicitModules).foldl p.restoreModule (p.restoreValues c)
  (state.1, retainExplicit state.2 p.askedFor)

end Configurator.Project
