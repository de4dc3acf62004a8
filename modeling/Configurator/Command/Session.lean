import Configurator.Catalog.Loader
import Configurator.Command.Failure
import Configurator.Project.Restore
import Configurator.Project.Store

/-!
# Sessions

A session is a project together with the catalogue of its source tree, in the state that was saved. It
is opened from a descriptor, changed, and saved to the descriptor again. Commands keep track of what
they have printed, because that stays when they fail later on.
-/

namespace Configurator

structure Session where
  settings : Settings
  /-- Path of the descriptor. -/
  descriptor : String
  project : Project
  catalog : Catalog
  /-- The files of the source tree. -/
  files : FileIndex
  deriving Inhabited

namespace Session

open Command (Failure)

/-- The session of a descriptor, and the saved entries that are missing from the source tree. -/
def load (settings : Settings) (tree : FileTree) (descriptor : String) :
    Except Failure (Session × List String) := do
  let project ← (Project.openFile tree descriptor).mapError (.during (.opening descriptor))
  let (catalog, files) ←
    (Catalog.load settings project.cpu.fileTags tree project.sourceRoot).mapError
      (.during (.scanning project.sourceRoot))
  let configDir := settings.configDirIn project.directory
  let (merged, catalog) := Project.mergeGenerated tree configDir catalog
  discard <| merged.mapError (.during .readingGenerated)
  let (missing, catalog) := project.applyTo catalog
  return ({ settings, descriptor, project, catalog, files }, missing)

/-- Writes the state of the catalogue to the descriptor. -/
def save (s : Session) (now : Instant) (tree : FileTree) : Except Failure FileTree := do
  let project := s.project.capture s.catalog
  let (_, tree) ←
    (project.save now tree s.descriptor).mapError (.during (.writing s.descriptor))
  return tree

end Session

/-! ## Running commands -/

namespace Command

/-- The files as a command has left them so far, and what it has printed. -/
structure Progress where
  tree : FileTree
  stdout : String := ""
  stderr : String := ""
  deriving Inhabited

end Command

/-- A command that gives a result or fails. What it has done before it fails stays. -/
abbrev Command (α : Type) : Type :=
  ExceptT Command.Failure (StateM Command.Progress) α

namespace Command

/-- Carries out a command on some files. -/
def execute {α : Type} (command : Command α) (tree : FileTree) : Except Failure α × Progress :=
  StateT.run (ExceptT.run command) { tree }

def say (line : String) : Command Unit :=
  modify fun p => { p with stdout := p.stdout ++ line ++ "\n" }

def sayAll (lines : List String) : Command Unit :=
  lines.forM say

def warn (line : String) : Command Unit :=
  modify fun p => { p with stderr := p.stderr ++ line ++ "\n" }

/-- Fails with an error of an operation. -/
def attempt {α : Type} : Except Error α → Command α
  | .ok a => pure a
  | .error e => throw (.error e)

/-- Opens the session of a descriptor, and warns of what is missing. -/
def openSession (settings : Settings) (descriptor : String) : Command Session := do
  match Session.load settings (← get).tree descriptor with
  | .error failure => throw failure
  | .ok (session, missing) =>
    missing.forM fun entry =>
      warn ("! Saved entry " ++ entry ++ " no longer exists in the source tree")
    return session

def saveSession (session : Session) (now : Instant) : Command Unit := do
  match session.save now (← get).tree with
  | .error failure => throw failure
  | .ok tree => modify fun p => { p with tree }

end Command

end Configurator
