import Configurator.Catalog.Assignment
import Configurator.Template.Basic
import Configurator.Template.Tokens

/-!
# Generated files

What is generated for a project: its headers with the present values, and its build scripts. Rendering
looks at the files of the source tree and changes nothing; writing puts what was rendered into the
output directory of the project, but for files that belong to the user and are there already.
-/

namespace Configurator

structure Artifact where
  /-- Relative to the output directory. -/
  path : String
  contents : String
  /-- Whether the file belongs to the user once it is there. -/
  userOwned : Bool
  deriving DecidableEq, Inhabited, Repr

namespace Artifact

/-! ## Rendering -/

/-- Where the copy of a header goes. -/
def headerPath (p : Project) (configDir path : String) : String :=
  Path.join (Path.join p.name configDir) ((Path.fileName? path).getD path)

/-- The paths of the headers that enabled modules are bound to. -/
def referencedHeaders (c : Catalog) : NameSet :=
  .ofList (c.enabledModules.filterMap (·.configuration))

/-- Copies of the headers that enabled modules are bound to. -/
def ofHeaders (p : Project) (configDir : String) (c : Catalog) : List Artifact :=
  (referencedHeaders c).toList.filterMap fun path =>
    (c.headers.get? path).map fun h => ⟨headerPath p configDir path, h.render, false⟩

def ofTemplate (tokens : TokenTable) (t : Template) : Artifact :=
  ⟨t.output, tokens.substitute t.text, t.userOwned⟩

/-- All that is generated for a project. Parameters that follow a module show its state. -/
def ofCatalog (tree : FileTree) (p : Project) (templates : TemplateSet) (configDir : String)
    (c : Catalog) (index : FileIndex) : List Artifact :=
  let c := c.syncAutoenabled.2
  let sources := (SourceLists.ofCatalog tree p c index).1
  let tokens := TokenTable.ofProject templates.family p c sources
  ofHeaders p configDir c ++ templates.templates.map (ofTemplate tokens)

/-! ## Writing -/

/-- Where an artifact goes. -/
def destination (dir : String) (a : Artifact) : String :=
  Path.join dir a.path

/-- Whether an artifact is left unwritten for the sake of what is there. -/
def isKept (tree : FileTree) (dir : String) (a : Artifact) : Bool :=
  a.userOwned && tree.exists? (a.destination dir)

/-- Puts an artifact into a directory, together with the directories that lead to it. -/
def write (tree : FileTree) (dir : String) (a : Artifact) : Except FileTree.Fault Unit × FileTree :=
  let path := a.destination dir
  match tree.makeDirectories ((Path.parent? path).getD dir) with
  | (.error fault, tree) => (.error fault, tree)
  | (.ok (), tree) =>
    match tree.write path (.text a.contents) with
    | .error fault => (.error fault, tree)
    | .ok tree => (.ok (), tree)

/-- Puts artifacts into a directory in turn and names the files that were written. The first one that
cannot be written ends it, and those before it stay. -/
def writeAll (tree : FileTree) (dir : String) : List Artifact → Except Error (List String) × FileTree
  | [] => (.ok [], tree)
  | a :: rest =>
    if a.isKept tree dir then writeAll tree dir rest
    else
      match a.write tree dir with
      | (.error fault, tree) => (.error (.generation (a.destination dir) fault), tree)
      | (.ok (), tree) =>
        let (written, tree) := writeAll tree dir rest
        (written.map (a.destination dir :: ·), tree)

end Artifact

end Configurator
