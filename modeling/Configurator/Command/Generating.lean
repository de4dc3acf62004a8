import Configurator.Artifact
import Configurator.Command.Session
import Configurator.Diff.Unified

/-!
# Generating files

The command that writes what is generated for a project. A dry run writes nothing and shows how the
files would change.
-/

namespace Configurator.Command

/-- All that is generated for the project of a session. -/
def artifactsOf (s : Session) (tree : FileTree) : Except Failure (List Artifact) := do
  let templates ←
    (TemplateSet.load tree s.project.family s.project.name s.settings.templateDir).mapError
      (.during .loadingTemplates)
  return Artifact.ofCatalog tree s.project templates s.settings.configDir s.catalog s.files

/-- The text that an artifact would replace; a file that cannot be read counts as empty. -/
def currentText (tree : FileTree) (dir : String) (a : Artifact) : String :=
  ((tree.read (a.destination dir)).toOption).getD ""

/-- Whether a dry run shows an artifact. -/
def wouldChange (tree : FileTree) (dir : String) (a : Artifact) : Bool :=
  !a.isKept tree dir && currentText tree dir a ≠ a.contents

/-- How a file would change. -/
def changeText (tree : FileTree) (dir : String) (a : Artifact) : String :=
  Diff.unified ("a/" ++ a.path) ("b/" ++ a.path) (currentText tree dir a) a.contents

/-- Shows what a run would change. -/
def preview (tree : FileTree) (dir : String) (artifacts : List Artifact) : Command Unit := do
  let changed := artifacts.filter (wouldChange tree dir)
  modify fun p => { p with
    stdout := p.stdout ++ String.join (changed.map (changeText tree dir)) }
  say ("\n→ " ++ toString changed.length ++ " files would change (dry run)")

/-- Writes artifacts into a directory and names the files. -/
def writeArtifacts (dir : String) (artifacts : List Artifact) : Command (List String) := do
  let (written, tree) := Artifact.writeAll (← get).tree dir artifacts
  modify fun p => { p with tree }
  attempt written

/-- Generates the files of a project, or shows what would change. -/
def generate (s : Session) (now : Instant) (dryRun : Bool) : Command Unit := do
  let tree := (← get).tree
  match artifactsOf s tree with
  | .error failure => throw failure
  | .ok artifacts =>
    let dir := s.project.outputDir
    if dryRun then preview tree dir artifacts
    else
      let written ← writeArtifacts dir artifacts
      say ("✓ Generated " ++ toString written.length ++ " files in " ++ dir)
      sayAll (written.map fun path => "  " ++ (Path.stripPrefix? dir path).getD path)
      saveSession s now

end Configurator.Command
