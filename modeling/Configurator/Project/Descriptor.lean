import Configurator.Error
import Configurator.Json.Decoder
import Configurator.Json.Printer
import Configurator.Project.Basic

/-!
# Project descriptors

A project is kept as a JSON text. Of its fields only the name, the source root, the output directory
and the CPU have to be there; a text without a version has version 1. Lists and maps that may be
missing are left out when they are empty.
-/

namespace Configurator

open Json (Decoder Fields)

/-! ## Reading -/

def decodeTexts : Decoder (List String) :=
  Decoder.list Decoder.string

namespace CpuSources

def decoder : Decoder CpuSources := fun j => do
  let fs ← Json.fields ["c", "pgm_c", "cppa", "cxx", "asm"] j
  let c ← fs.orElse "c" [] decodeTexts
  let programC ← fs.orElse "pgm_c" [] decodeTexts
  let preprocessed ← fs.orElse "cppa" [] decodeTexts
  let cxx ← fs.orElse "cxx" [] decodeTexts
  let assembly ← fs.orElse "asm" [] decodeTexts
  return { c, programC, preprocessed, cxx, assembly }

end CpuSources

namespace Cpu

def decoder : Decoder Cpu := fun j => do
  let fs ← Json.fields ["name", "tags", "toolchain", "build_parameters", "sources"] j
  let name ← fs.required "name" Decoder.string
  let tags ← fs.orElse "tags" [] decodeTexts
  let toolchain ← fs.orElse "toolchain" "" Decoder.string
  let buildParameters ← fs.orElse "build_parameters" .empty (Decoder.map Decoder.string)
  let sources ← fs.orElse "sources" {} CpuSources.decoder
  return { name, tags, toolchain, buildParameters, sources }

end Cpu

namespace Toolchain

def decoder : Decoder Toolchain := fun j => do
  let fs ← Json.fields ["path", "id"] j
  let path ← fs.required "path" Decoder.string
  let id ← fs.orElse "id" "" Decoder.string
  return { path, id }

end Toolchain

def Instant.decoder : Decoder Instant := fun j => do
  match Instant.read? (← Decoder.string j) with
  | some t => return t
  | none => throw "malformed time"

namespace Project

def fieldNames : List String :=
  ["version", "name", "source_root", "output_dir", "cpu", "toolchain", "clock_frequency",
    "known_tags", "enabled_modules", "explicit_modules", "parameters", "saved_at"]

def decoder : Decoder Project := fun j => do
  let fs ← Json.fields fieldNames j
  let version ← fs.orElse "version" 1 Decoder.word32
  let name ← fs.required "name" Decoder.string
  let sourceRoot ← fs.required "source_root" Decoder.string
  let outputDir ← fs.required "output_dir" Decoder.string
  let cpu ← fs.required "cpu" Cpu.decoder
  let toolchain ← fs.orElse "toolchain" {} Toolchain.decoder
  let clockFrequency ← fs.orElse "clock_frequency" "" Decoder.string
  let knownTags ← fs.orElse "known_tags" [] decodeTexts
  let enabledModules ← fs.orElse "enabled_modules" [] decodeTexts
  let explicitModules ← fs.orElse "explicit_modules" [] decodeTexts
  let parameters ← fs.orElse "parameters" .empty (Decoder.map (Decoder.map Decoder.string))
  let savedAt ← fs.orElse "saved_at" none (Decoder.optional Instant.decoder)
  return { version, name, sourceRoot, outputDir, cpu, toolchain, clockFrequency, knownTags,
           enabledModules, explicitModules, parameters, savedAt }

/-- The project that a text describes. -/
def parse (text : String) : Except Error Project :=
  (Json.decode decoder text).mapError .json

end Project

/-! ## Writing -/

/-- A member for a list that is left out when it is empty. -/
def textsUnlessEmpty (name : String) (items : List String) : List (String × Json) :=
  if items = [] then [] else [(name, .texts items)]

def textMap (m : NameMap String) : Json :=
  .record (m.entries.map fun (name, value) => (name, .text value))

def CpuSources.toJson (s : CpuSources) : Json :=
  .record (textsUnlessEmpty "c" s.c ++ textsUnlessEmpty "pgm_c" s.programC
    ++ textsUnlessEmpty "cppa" s.preprocessed ++ textsUnlessEmpty "cxx" s.cxx
    ++ textsUnlessEmpty "asm" s.assembly)

def Cpu.toJson (cpu : Cpu) : Json :=
  .record ([("name", .text cpu.name), ("tags", .texts cpu.tags), ("toolchain", .text cpu.toolchain)]
    ++ (if cpu.buildParameters.isEmpty then []
        else [("build_parameters", textMap cpu.buildParameters)])
    ++ [("sources", cpu.sources.toJson)])

def Toolchain.toJson (t : Toolchain) : Json :=
  .record [("path", .text t.path), ("id", .text t.id)]

namespace Project

def toJson (p : Project) : Json :=
  .record ([("version", .int p.version), ("name", .text p.name),
      ("source_root", .text p.sourceRoot), ("output_dir", .text p.outputDir),
      ("cpu", p.cpu.toJson), ("toolchain", p.toolchain.toJson),
      ("clock_frequency", .text p.clockFrequency)]
    ++ textsUnlessEmpty "known_tags" p.knownTags
    ++ [("enabled_modules", .texts p.enabledModules)]
    ++ textsUnlessEmpty "explicit_modules" p.explicitModules
    ++ [("parameters", .record (p.parameters.entries.map fun (path, values) =>
        (path, textMap values)))]
    ++ p.savedAt.toList.map (fun t => ("saved_at", .text t.write)))

/-- The text that describes a project. -/
def write (p : Project) : String :=
  p.toJson.pretty

end Project

end Configurator
