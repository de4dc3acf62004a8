import Configurator.Command.Invocation
import Configurator.Command.Session

/-!
# Creating projects

The command that makes a descriptor. The source tree is scanned once, so that malformed definitions in
it show before anything is written.
-/

namespace Configurator.Command

/-- A path as seen from the root. -/
def absolute (tree : FileTree) (path : String) : String :=
  Path.join tree.workingPath path

namespace NewProject

/-- The project that is made. Its known tags hold those of the CPU. -/
def toProject (n : NewProject) (tree : FileTree) : Project :=
  let cpu : Cpu := { name := n.cpu, tags := n.tags, toolchain := n.cpuToolchain }
  { version := if n.legacy then 1 else Project.currentVersion
    name := n.name
    sourceRoot := absolute tree n.sourceRoot
    outputDir := absolute tree n.outputDir
    cpu
    toolchain := (n.toolchain.map fun path => { path, id := n.cpuToolchain }).getD {}
    clockFrequency := n.clock
    knownTags := cpu.fileTags.foldl Catalog.addNew n.knownTags }

end NewProject

/-- Makes a descriptor. -/
def create (settings : Settings) (descriptor : String) (now : Instant) (n : NewProject) :
    Command Unit := do
  let tree := (← get).tree
  if tree.exists? descriptor && !n.force then throw (.alreadyExists descriptor)
  let project := n.toProject tree
  attempt (project.validate tree)
  match Catalog.load settings project.cpu.fileTags tree project.sourceRoot with
  | .error e => throw (.during (.scanning project.sourceRoot) e)
  | .ok (catalog, _) =>
    let (_, tree) ← attempt (project.save now tree descriptor)
    modify fun p => { p with tree }
    say ("✓ Created " ++ descriptor ++ " (schema v" ++ toString project.version ++ ", "
      ++ project.family.name ++ " template family)")
    say ("  " ++ toString catalog.modules.size ++ " modules found under " ++ project.sourceRoot)
    sayAll ["\nNext steps:",
      "  1. Run modforge modules to see available modules",
      "  2. Enable modules with modforge enable <module>",
      "  3. Run modforge generate to write the build files"]

end Configurator.Command
