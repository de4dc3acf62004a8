import Configurator.Catalog.Basic
import Configurator.FileIndex
import Configurator.Project.Basic

/-!
# Source lists

The source files that the enabled modules of a catalogue bring into a build, in a list for each way in
which files are compiled. A CPU with separate memories compiles C sources for programs, for data, or
for both; all other sources are compiled in one way.
-/

namespace Configurator

/-- What a source file is written in. -/
inductive Language where
  | c
  /-- Assembly that is preprocessed. -/
  | preprocessed
  | assembly
  | cxx
  deriving DecidableEq, Inhabited, Repr

namespace Language

/-- The extensions that sources are looked for under. -/
def extensions : List String := ["c", "S", "s", "cpp"]

def ofExtension? (extension : String) : Option Language :=
  if extension = "c" then some .c
  else if extension = "S" then some .preprocessed
  else if extension = "s" then some .assembly
  else if extension ∈ ["cpp", "cc", "cxx"] then some .cxx
  else none

/-- The language that the text behind the last dot of a name tells. -/
def ofName? (name : String) : Option Language :=
  ofExtension? (String.ofList (name.toList.reverse.takeWhile (· ≠ '.')).reverse)

end Language

/-- The ways in which a build compiles sources. -/
inductive SourceKind where
  | c
  /-- C for program memory. -/
  | programC
  | preprocessed
  | cxx
  | assembly
  deriving DecidableEq, Inhabited, Repr

namespace SourceKind

/-- How the C sources of a module are compiled. Where memories are not apart there is but one way, and
a module that names no memory goes to both. -/
def ofMode (harvard : Bool) (mode : Option HarvardMode) : List SourceKind :=
  if harvard then
    match mode.getD .both with
    | .data => [.c]
    | .both => [.c, .programC]
    | .program => [.programC]
  else [.c]

/-- How a file in a language is compiled, given how C sources are. -/
def ofLanguage (forC : List SourceKind) : Language → List SourceKind
  | .c => forC
  | .preprocessed => [.preprocessed]
  | .assembly => [.assembly]
  | .cxx => [.cxx]

end SourceKind

/-- The paths that are compiled in each way, each once and in increasing order. -/
structure SourceLists where
  c : NameSet := .empty
  programC : NameSet := .empty
  preprocessed : NameSet := .empty
  cxx : NameSet := .empty
  assembly : NameSet := .empty
  deriving DecidableEq, Inhabited, Repr

namespace SourceLists

/-- The files that are compiled in one way. -/
def get (lists : SourceLists) : SourceKind → NameSet
  | .c => lists.c
  | .programC => lists.programC
  | .preprocessed => lists.preprocessed
  | .cxx => lists.cxx
  | .assembly => lists.assembly

def insert (lists : SourceLists) (kind : SourceKind) (path : String) : SourceLists :=
  match kind with
  | .c => { lists with c := lists.c.insert path }
  | .programC => { lists with programC := lists.programC.insert path }
  | .preprocessed => { lists with preprocessed := lists.preprocessed.insert path }
  | .cxx => { lists with cxx := lists.cxx.insert path }
  | .assembly => { lists with assembly := lists.assembly.insert path }

def ofList (sources : List (SourceKind × String)) : SourceLists :=
  sources.foldl (fun lists (kind, path) => lists.insert kind path) {}

/-- All C sources in one list. -/
def mergeProgramMemory (lists : SourceLists) : SourceLists :=
  { lists with c := lists.c.union lists.programC, programC := .empty }

theorem mem_get_insert {lists : SourceLists} {kind other : SourceKind} {path p : String} :
    p ∈ (lists.insert kind path).get other ↔ (other = kind ∧ p = path) ∨ p ∈ lists.get other := by
  cases kind <;> cases other <;> simp [insert, get, NameSet.mem_insert]

theorem mem_get_foldl_insert {sources : List (SourceKind × String)} {lists : SourceLists}
    {kind : SourceKind} {p : String} :
    p ∈ (sources.foldl (fun lists (kind, path) => lists.insert kind path) lists).get kind
      ↔ (kind, p) ∈ sources ∨ p ∈ lists.get kind := by
  induction sources generalizing lists with
  | nil => simp
  | cons s sources ih =>
    rw [List.foldl_cons, ih, mem_get_insert, List.mem_cons, Prod.ext_iff]
    constructor
    · rintro (h | h | h)
      · exact .inl (.inr h)
      · exact .inl (.inl h)
      · exact .inr h
    · rintro ((h | h) | h)
      · exact .inr (.inl h)
      · exact .inl h
      · exact .inr (.inr h)

/-- A list holds the sources of its kind. -/
theorem mem_get_ofList {sources : List (SourceKind × String)} {kind : SourceKind} {p : String} :
    p ∈ (ofList sources).get kind ↔ (kind, p) ∈ sources := by
  rw [ofList, mem_get_foldl_insert]
  cases kind <;> simp [get]

/-! ## Looking for files -/

/-- The names of the files that a name stands for: itself if it has an extension, or else the name and
its variants for some tags with each extension. -/
def candidates (tags : List String) (name : String) : List String :=
  if (Path.extension? name).isSome then [name]
  else Language.extensions.flatMap fun extension =>
    (name ++ "." ++ extension) :: tags.map fun tag => name ++ "_" ++ tag ++ "." ++ extension

/-- The files with some names that are in a known language. -/
def findNamed (tree : FileTree) (index : FileIndex) :
    List String → List (Language × String) × FileIndex
  | [] => ([], index)
  | name :: names =>
    let (paths, index) := index.findNamed tree name
    let (found, index) := findNamed tree index names
    match Language.ofName? name with
    | some language => (paths.map (language, ·) ++ found, index)
    | none => (found, index)

/-- The files that some names stand for, as they are compiled. -/
def findSources (tree : FileTree) (tags : List String) (start : String) (forC : List SourceKind)
    (index : FileIndex) (names : List String) : List (SourceKind × String) × FileIndex :=
  let (found, index) := findNamed tree index (names.flatMap (candidates tags))
  (found.flatMap fun (language, path) =>
    (SourceKind.ofLanguage forC language).map (·, start ++ "/" ++ path), index)

/-! ## Sources of a build -/

/-- What paths of sources start with: a source tree is expected under its own name. -/
def startOf (sourceRoot : String) : String :=
  (Path.fileName? sourceRoot).getD sourceRoot

/-- The copies of a module's hardware sources in the directory of a project. -/
def hardwareSources (project : String) (m : Module) : List (SourceKind × String) :=
  (m.hw.filter fun file => ['.', 'c'].isSuffixOf file.toList).map fun file =>
    (.c, project ++ "/hw/" ++ (Path.fileName? file).getD file)

/-- The sources of an enabled module: what its name stands for, its hardware sources, and what the bare
files that it depends on now stand for. -/
def ofModule (tree : FileTree) (p : Project) (c : Catalog) (index : FileIndex) (m : Module) :
    List (SourceKind × String) × FileIndex :=
  let names := m.name :: (c.effectiveDeps m.name).filter (!c.isModule ·)
  let forC := SourceKind.ofMode p.cpu.isHarvard m.harvard
  let (found, index) :=
    findSources tree p.cpu.fileTags (startOf c.sourceRoot) forC index names
  (found ++ hardwareSources p.name m, index)

/-- The sources of some modules. -/
def ofModules (tree : FileTree) (p : Project) (c : Catalog) (index : FileIndex) :
    List Module → List (SourceKind × String) × FileIndex
  | [] => ([], index)
  | m :: ms =>
    let (found, index) := ofModule tree p c index m
    let (more, index) := ofModules tree p c index ms
    (found ++ more, index)

/-- The sources that the CPU needs in addition. -/
def ofCpu (cpu : Cpu) (start : String) : List (SourceKind × String) :=
  let s := cpu.sources
  let program : SourceKind := if cpu.isHarvard then .programC else .c
  (s.c.map (SourceKind.c, ·) ++ s.programC.map (program, ·)
    ++ s.preprocessed.map (SourceKind.preprocessed, ·) ++ s.cxx.map (SourceKind.cxx, ·)
    ++ s.assembly.map (SourceKind.assembly, ·)).map fun (kind, path) => (kind, start ++ "/" ++ path)

/-- The sources of a project. The tree is only looked at through the index of its files. -/
def ofCatalog (tree : FileTree) (p : Project) (c : Catalog) (index : FileIndex) :
    SourceLists × FileIndex :=
  let (found, index) := ofModules tree p c index c.enabledModules
  (ofList (found ++ ofCpu p.cpu (startOf c.sourceRoot)), index)

end SourceLists

end Configurator
