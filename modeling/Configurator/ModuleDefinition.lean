import Configurator.Directive
import Configurator.HarvardMode
import Configurator.NameMap

/-!
# Module declarations

The first documentation block of a file may declare a module: directives give its name and what it
depends on, and a line with `\brief` describes it. `ofBlock` reads a block, and `directiveLines`
writes a definition as the lines of a block.
-/

namespace Configurator

/-- What a block says about a module. -/
structure ModuleDefinition where
  name : String := ""
  /-- Names of modules and of bare source files. -/
  depends : List String := []
  /-- Path of the header that holds the module's parameters. -/
  configuration : Option String := none
  hw : List String := []
  /-- Expression over tags that says where the module can be used. -/
  supports : Option String := none
  harvard : Option HarvardMode := none
  description : String := ""
  /-- All keys that have no meaning of their own. -/
  constants : NameMap Value := .empty
  deriving DecidableEq, Inhabited, Repr

/-- What the first block of a file holds. -/
structure ModuleBlock where
  module : Option ModuleDefinition
  /-- Whether there is a directive at all; only then do later blocks count. -/
  hasDirectives : Bool
  deriving DecidableEq, Inhabited, Repr

namespace ModuleDefinition

/-- The sign of the line that describes a module. -/
def briefMarker : String := "\\brief"

/-- The description that a line gives, if it gives one. -/
def briefOf? (line : String) : Option String :=
  (Text.splitAtFirst? briefMarker.toList line.toList).map fun (_, behind) =>
    String.ofList (Text.trim behind)

/-- The description of a block: the last one of the lines that are not directives. -/
def descriptionOf (lines : List String) : String :=
  ((lines.filter (!Directive.isDirective ·)).filterMap briefOf?).getLast?.getD ""

/-- A definition with one more key assigned. A key that has a meaning has to have a value of the right
kind; an empty configuration is none. -/
def assign (m : ModuleDefinition) (a : Directive.Assigned) :
    Except Directive.Error ModuleDefinition :=
  match a.key with
  | "module_name" => do pure { m with name := ← a.string }
  | "module_depends" => do pure { m with depends := ← a.strings }
  | "module_configuration" => do
    let path ← a.string
    pure { m with configuration := if path = "" then none else some path }
  | "module_hw" => do pure { m with hw := ← a.strings }
  | "module_supports" => do pure { m with supports := some (← a.string) }
  | "module_harvard" => do
    let word ← a.string
    match HarvardMode.ofName? word with
    | some mode => pure { m with harvard := some mode }
    | none => a.fail (.unknownMode word)
  | key => .ok { m with constants := m.constants.insert key a.value }

/-- The module that a block declares. There is none without a name; every directive has to be readable
even then. -/
def ofBlock (lines : List String) : Except Directive.Error ModuleBlock := do
  let assigned ← lines.zipIdx.mapM fun (line, index) => Directive.assignments index line
  let hasDirectives := lines.any Directive.isDirective
  if assigned.flatten.any (·.key = "module_name") then
    let m ← assigned.flatten.foldlM assign { description := descriptionOf lines }
    pure ⟨some m, hasDirectives⟩
  else pure ⟨none, hasDirectives⟩

/-- A tuple of strings. -/
def stringTuple (items : List String) : Value :=
  .tuple (items.map .str)

/-- The keys of a definition with their values; keys that say nothing are left out. -/
def assignments (m : ModuleDefinition) : List (String × Value) :=
  [("module_name", .str m.name)]
    ++ (if m.depends = [] then [] else [("module_depends", stringTuple m.depends)])
    ++ m.configuration.toList.map (fun path => ("module_configuration", .str path))
    ++ (if m.hw = [] then [] else [("module_hw", stringTuple m.hw)])
    ++ m.supports.toList.map (fun expr => ("module_supports", .str expr))
    ++ m.harvard.toList.map (fun mode => ("module_harvard", .str mode.name))
    ++ m.constants.entries

/-- The definition as the lines of a block, one key in each. -/
def directiveLines (m : ModuleDefinition) : List String :=
  (if m.description = "" then [] else [briefMarker ++ " " ++ m.description])
    ++ m.assignments.map fun (key, value) => Directive.render key value

end ModuleDefinition

end Configurator
