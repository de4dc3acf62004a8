import Configurator.Instant
import Configurator.NameMap
import Configurator.Path
import Configurator.Support
import Configurator.Template.Family

/-!
# Projects

A project describes for which CPU, from which source tree and with which toolchain a program is built,
which modules are enabled, and what values the parameters have.
-/

namespace Configurator

/-- Sources that a CPU needs in addition, relative to the source root. -/
structure CpuSources where
  c : List String := []
  /-- C sources for program memory. -/
  programC : List String := []
  /-- Assembly that is preprocessed. -/
  preprocessed : List String := []
  cxx : List String := []
  assembly : List String := []
  deriving DecidableEq, Inhabited, Repr

structure Cpu where
  name : String := ""
  tags : List String := []
  toolchain : String := ""
  /-- Variables of the build, by name. -/
  buildParameters : NameMap String := .empty
  sources : CpuSources := {}
  deriving DecidableEq, Inhabited, Repr

namespace Cpu

/-- Whether programs and data have separate memories. -/
def isHarvard (cpu : Cpu) : Bool :=
  "harvard" ∈ cpu.tags

/-- The words that mark variants of a file for the CPU, each once. -/
def fileTags (cpu : Cpu) : List String :=
  (cpu.tags ++ [cpu.name, cpu.toolchain]).foldl (fun tags tag =>
    if tag = "" ∨ tag ∈ tags then tags else tags ++ [tag]) []

end Cpu

/-- The compiler that a project uses. -/
structure Toolchain where
  path : String := ""
  id : String := ""
  deriving DecidableEq, Inhabited, Repr

namespace Toolchain

/-- The texts before and behind the last occurrence of a mark. -/
def splitAtLast? (mark text : List Char) : Option (List Char × List Char) :=
  (Text.splitAtFirst? mark.reverse text.reverse).map fun (behind, before) =>
    (before.reverse, behind.reverse)

/-- What stands around `gcc` in the path of the compiler; nothing if it does not occur. -/
def affixes (t : Toolchain) : String × String :=
  let path := t.path.toList.map fun c => if c = '\\' then '/' else c
  match splitAtLast? ['g', 'c', 'c'] path with
  | some (before, behind) => (String.ofList before, String.ofList behind)
  | none => ("", "")

end Toolchain

structure Project where
  /-- Version of the descriptor's form. -/
  version : Nat
  name : String
  sourceRoot : String
  /-- The directory for the makefile and the directory of the project. -/
  outputDir : String
  cpu : Cpu
  toolchain : Toolchain := {}
  clockFrequency : String := ""
  /-- All tags that expressions may mention. -/
  knownTags : List String := []
  enabledModules : List String := []
  /-- Those of them that were asked for. -/
  explicitModules : List String := []
  /-- Values by path of the header and name. -/
  parameters : NameMap (NameMap String) := .empty
  savedAt : Option Instant := none
  deriving DecidableEq, Inhabited, Repr

namespace Project

/-- Where the descriptor is found by default. -/
def fileName : String := "project.modforge.json"

/-- The version of a new descriptor. -/
def currentVersion : Nat := 2

def family (p : Project) : Template.Family :=
  .ofVersion p.version

/-- The directory with the project's own files. -/
def directory (p : Project) : String :=
  Path.join p.outputDir p.name

def tagEnvironment (p : Project) : TagEnvironment :=
  .ofFacts p.knownTags p.cpu.name p.cpu.tags p.cpu.toolchain

end Project

end Configurator
