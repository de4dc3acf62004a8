import Configurator.Command.Creating
import Configurator.Command.Editing
import Configurator.Command.Generating
import Configurator.Command.Listing

/-!
# Running command lines

A command line is read, the command is carried out on the files, and what comes out is an exit code,
what was printed, and the files as they are then.
-/

namespace Configurator.Command

/-- What running a command line comes to. -/
structure Outcome where
  code : Nat
  stdout : String
  stderr : String
  tree : FileTree
  deriving Inhabited

/-- The settings in a file, or the usual ones if there is no file. -/
def settingsAt (path : String) : Command Settings := do
  let tree := (← get).tree
  if tree.exists? path then attempt (Settings.load tree path) else return {}

/-- Does something with a project that has been opened. -/
def act (s : Session) (now : Instant) : Action → Command Unit
  | .list category enabled json => list s category enabled json
  | .describe name => describe s name
  | .enable names => enable s now names
  | .disable names yes => disable s now names yes
  | .assign target name value => assign s now target name value
  | .generate dryRun => generate s now dryRun

/-- Carries out an invocation. -/
def perform (i : Invocation) (now : Instant) : Command Unit := do
  let settings ← settingsAt i.settings
  match i.request with
  | .create n => create settings i.descriptor now n
  | .act action =>
    if !(← get).tree.exists? i.descriptor then throw (.noProject i.descriptor)
    act (← openSession settings i.descriptor) now action

/-- How the program is called. -/
def usage : String :=
  "Usage: modforge [--config FILE] [--project FILE] [--verbose] COMMAND ...\n\nCommands:\n"
    ++ Text.join "\n" (Invocation.commandNames.map ("  " ++ ·)) ++ "\n"

/-- Runs a command line on some files at a moment. -/
def run (projectVariable : Option String) (now : Instant) (words : List String) (tree : FileTree) :
    Outcome :=
  match Invocation.read projectVariable words with
  | .error .help => ⟨0, usage, "", tree⟩
  | .error .misuse => ⟨2, "", usage, tree⟩
  | .ok i =>
    match execute (perform i now) tree with
    | (.ok (), p) => ⟨0, p.stdout, p.stderr, p.tree⟩
    | (.error failure, p) => ⟨1, p.stdout, p.stderr ++ failure.report, p.tree⟩

end Configurator.Command
