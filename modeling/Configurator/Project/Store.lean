import Configurator.Project.Descriptor

/-!
# Projects on disk

A descriptor names its source tree and output directory relative to its own directory where it can.
Loading resolves them against that directory, and saving takes it off again.
-/

namespace Configurator.Project

/-- A path as seen from a directory, unless it is absolute. -/
def resolvePath (base path : String) : String :=
  if Path.isAbsolute path then path else Path.join base path

/-- The project with its paths seen from the directory of its descriptor. -/
def resolvePaths (p : Project) (descriptor : String) : Project :=
  match Path.parent? descriptor with
  | none => p
  | some base =>
    { p with sourceRoot := resolvePath base p.sourceRoot, outputDir := resolvePath base p.outputDir }

/-- A path as it is stored in a directory: relative to it if it leads there. -/
def storePath (base path : String) : String :=
  (Path.stripPrefix? base path).getD path

/-- The project with its paths as they are stored in its descriptor. -/
def storePaths (p : Project) (descriptor : String) : Project :=
  match Path.parent? descriptor with
  | none => p
  | some base =>
    if base = "" then p
    else { p with
      sourceRoot := storePath base p.sourceRoot
      outputDir := storePath base p.outputDir }

/-- The project that a descriptor holds. -/
def load (tree : FileTree) (descriptor : String) : Except Error Project := do
  let text ← (tree.read descriptor).mapError Error.io
  return (← parse text).resolvePaths descriptor

/-- Checks that the source tree and the compiler are there. -/
def validate (p : Project) (tree : FileTree) : Except Error Unit := do
  if !tree.isDirectory p.sourceRoot then throw (.missingSourceRoot p.sourceRoot)
  if p.toolchain.path ≠ "" && !tree.exists? p.toolchain.path then
    throw (.missingToolchain p.toolchain.path)

/-- Loads a project and checks it. -/
def openFile (tree : FileTree) (descriptor : String) : Except Error Project := do
  let p ← load tree descriptor
  p.validate tree
  return p

/-- Writes a project to its descriptor, with the time. -/
def save (p : Project) (now : Instant) (tree : FileTree) (descriptor : String) :
    Except Error (Project × FileTree) := do
  let p := { p with savedAt := some now }
  let text := (p.storePaths descriptor).write
  let tree ← (tree.write descriptor (.text text)).mapError Error.io
  return (p, tree)

end Configurator.Project
