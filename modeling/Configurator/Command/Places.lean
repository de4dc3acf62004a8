import Configurator.Command.Invocation
import Configurator.Project.Store

/-!
# Places

The paths that a command line can reach. Whoever runs a command on a disk has to know them before, so
that the part of the disk which counts can be handed over as a file tree.
-/

namespace Configurator.Command

/-- The paths that a request names itself. -/
def Request.places : Request → List String
  | .create n => [n.sourceRoot, n.outputDir] ++ n.toolchain.toList
  | .act _ => []

namespace Invocation

/-- The paths that the words of a command line name. -/
def places (i : Invocation) : List String :=
  [i.settings, i.descriptor] ++ i.request.places

/-- The paths that the settings and the descriptor name, as they are found in a tree that holds both. -/
def placesWithin (i : Invocation) (tree : FileTree) : List String :=
  let ofSettings := match Settings.load tree i.settings with
    | .ok settings => settings.templateDir.toList
    | .error _ => []
  let ofProject := match Project.load tree i.descriptor with
    | .ok p => [p.sourceRoot, p.outputDir, p.toolchain.path]
    | .error _ => []
  ofSettings ++ ofProject

end Invocation

end Configurator.Command
