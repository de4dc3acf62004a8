import Configurator.Error
import Configurator.Json.Decoder
import Configurator.Json.Printer

/-!
# Settings of the tool

Which files are read for declarations, where templates come from, and where generated headers go. The
settings stand in a JSON file in which every field may be missing.
-/

namespace Configurator

structure Settings where
  /-- Patterns of the files that are read. -/
  included : List String := ["**/*.h", "**/*.c", "**/*.s", "**/*.S"]
  /-- Patterns of the files that are left alone. -/
  excluded : List String := ["**/.git/**", "**/.svn/**", "**/build/**", "**/obj/**"]
  /-- A directory with templates that replace the built-in ones. -/
  templateDir : Option String := none
  /-- Where headers go within the directory of a project. -/
  configDir : String := "cfg"
  deriving DecidableEq, Inhabited, Repr

namespace Settings

/-- Where the settings are found by default. -/
def fileName : String := ".modforge.config.json"

/-- The directory for headers within a project directory. -/
def configDirIn (s : Settings) (projectDir : String) : String :=
  Path.join projectDir s.configDir

/-! ## File form -/

open Json (Decoder)

/-- The record on where output goes. -/
def decodeOutput : Decoder String := fun j => do
  let fs ← Json.fields ["config_dir"] j
  fs.orElse "config_dir" ({} : Settings).configDir Decoder.string

def decoder : Decoder Settings := fun j => do
  let fs ← Json.fields ["include", "exclude", "template_dir", "output"] j
  let default : Settings := {}
  let included ← fs.orElse "include" default.included (Decoder.list Decoder.string)
  let excluded ← fs.orElse "exclude" default.excluded (Decoder.list Decoder.string)
  let templateDir ← fs.orElse "template_dir" none (Decoder.optional Decoder.string)
  let configDir ← fs.orElse "output" default.configDir decodeOutput
  return { included, excluded, templateDir, configDir }

/-- The settings that a text holds. -/
def parse (text : String) : Except Error Settings :=
  (Json.decode decoder text).mapError .json

def toJson (s : Settings) : Json :=
  .record (
    [("include", .texts s.included), ("exclude", .texts s.excluded)]
      ++ s.templateDir.toList.map (fun dir => ("template_dir", .text dir))
      ++ [("output", .record [("config_dir", .text s.configDir)])])

def write (s : Settings) : String :=
  s.toJson.pretty

def load (tree : FileTree) (path : String) : Except Error Settings := do
  parse (← (tree.read path).mapError .io)

def save (s : Settings) (tree : FileTree) (path : String) : Except Error FileTree :=
  (tree.write path (.text s.write)).mapError .io

end Settings

end Configurator
