import Configurator.Command.Arguments
import Configurator.Project.Basic
import Configurator.Settings

/-!
# Command lines

What a user can ask for: the commands with their operands and switches, and the switches that every
command takes, before its name or behind it. A switch that is given in both places counts as it is given
behind the name.
-/

namespace Configurator.Command

/-- What a new project is made from. -/
structure NewProject where
  name : String
  sourceRoot : String
  outputDir : String
  cpu : String
  tags : List String
  cpuToolchain : String
  /-- Path of the compiler. -/
  toolchain : Option String
  clock : String
  knownTags : List String
  /-- Whether the descriptor has version 1. -/
  legacy : Bool
  /-- Whether a descriptor that is there is replaced. -/
  force : Bool
  deriving DecidableEq, Inhabited, Repr

/-- What can be done with a project. -/
inductive Action where
  | list (category : Option String) (enabled json : Bool)
  | describe (module : String)
  | enable (modules : List String)
  /-- With `yes` all questions are answered. -/
  | disable (modules : List String) (yes : Bool)
  /-- Give a parameter a value. The target is a module or the path of a header. -/
  | assign (target name value : String)
  | generate (dryRun : Bool)
  deriving DecidableEq, Inhabited, Repr

inductive Request where
  /-- Make a descriptor. -/
  | create (project : NewProject)
  | act (action : Action)
  deriving DecidableEq, Inhabited, Repr

/-- A request together with the files that it is about. -/
structure Invocation where
  settings : String
  descriptor : String
  request : Request
  deriving DecidableEq, Inhabited, Repr

namespace Invocation

/-! ## Forms -/

/-- The switches of every command. -/
def commonSwitches : List Switch :=
  [{ name := "config", letter := some 'c', isPath := true },
    { name := "project", letter := some 'p', isPath := true },
    { name := "verbose", letter := some 'v', takesValue := false }]

/-- The form of a command. -/
def formOf (command : String) : Form :=
  let (switches, operands) : List Switch × Option Nat := match command with
    | "init" =>
      ([{ name := "source-root", letter := some 's', isPath := true },
        { name := "output-dir", letter := some 'o', isPath := true },
        { name := "cpu" }, { name := "tag", repeats := true }, { name := "cpu-toolchain" },
        { name := "toolchain", isPath := true }, { name := "clock" },
        { name := "known-tag", repeats := true }, { name := "legacy", takesValue := false },
        { name := "force", letter := some 'f', takesValue := false }], some 1)
    | "modules" =>
      ([{ name := "category" }, { name := "enabled", takesValue := false },
        { name := "json", takesValue := false }], some 0)
    | "show" => ([], some 1)
    | "enable" => ([], none)
    | "disable" => ([{ name := "yes", letter := some 'y', takesValue := false }], none)
    | "set" => ([], some 3)
    | "generate" => ([{ name := "dry-run", takesValue := false }], some 0)
    | _ => ([], none)
  { switches := commonSwitches ++ switches, operands }

/-- The names of the commands. -/
def commandNames : List String :=
  ["init", "modules", "show", "enable", "disable", "set", "generate"]

/-- The form of the words up to the name of the command. -/
def outerForm : Form where
  switches := commonSwitches
  questions := [("help", 'h'), ("version", 'V')]
  operands := some 0
  commands := "help" :: commandNames

/-! ## Requests -/

/-- The new project that words describe. -/
def newProjectOf? (name : String) (g : Given) : Option NewProject := do
  let sourceRoot ← g.value? "source-root"
  let cpu ← g.value? "cpu"
  return {
    name
    sourceRoot
    outputDir := (g.value? "output-dir").getD "."
    cpu
    tags := g.values "tag"
    cpuToolchain := (g.value? "cpu-toolchain").getD "gcc"
    toolchain := g.value? "toolchain"
    clock := (g.value? "clock").getD ""
    knownTags := g.values "known-tag"
    legacy := g.has "legacy"
    force := g.has "force" }

/-- What a command asks for, given its words. -/
def requestOf? (command : String) (g : Given) : Option Request :=
  match command, g.operands with
  | "init", [name] => (newProjectOf? name g).map .create
  | "modules", [] => some (.act (.list (g.value? "category") (g.has "enabled") (g.has "json")))
  | "show", [name] => some (.act (.describe name))
  | "enable", name :: names => some (.act (.enable (name :: names)))
  | "disable", name :: names => some (.act (.disable (name :: names) (g.has "yes")))
  | "set", [target, name, value] => some (.act (.assign target name value))
  | "generate", [] => some (.act (.generate (g.has "dry-run")))
  | _, _ => none

/-- Reads a command line. `projectVariable` is the descriptor that the environment names; it cannot be
empty in a place where the command line names none. -/
def read (projectVariable : Option String) (words : List String) : Except Halt Invocation := do
  let (outer, words) ← outerForm.read {} words
  match words with
  | [] => throw .misuse
  | ["help"] => throw .help
  | ["help", command] => throw (if command ∈ outerForm.commands then .help else .misuse)
  | "help" :: _ => throw .misuse
  | command :: words =>
    let (inner, _) ← (formOf command).read {} words
    match requestOf? command inner with
    | none => throw .misuse
    | some request =>
      if projectVariable = some "" && !(outer.has "project" && inner.has "project") then
        throw .misuse
      let common (name : String) := (inner.value? name).orElse fun _ => outer.value? name
      return {
        settings := (common "config").getD Settings.fileName
        descriptor := ((common "project").orElse fun _ => projectVariable).getD Project.fileName
        request }

end Invocation

end Configurator.Command
