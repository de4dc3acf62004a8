import Configurator.ModuleDefinition

/-!
# Modules

A module is a part of a source tree that can be enabled or not. It depends on other modules and on
bare source files, and its parameters stand in a header.
-/

namespace Configurator

structure Module where
  name : String
  /-- Names of modules, and of source files that belong to none. -/
  depends : List String
  /-- Path of the header that holds the module's parameters. -/
  configuration : Option String
  /-- The directory that the defining file is in. -/
  category : String
  hw : List String
  enabled : Bool
  constants : NameMap Value
  description : String
  supports : Option String
  harvard : Option HarvardMode
  /-- The defining file, relative to the source root. -/
  definedIn : String
  deriving DecidableEq, Inhabited, Repr

/-- A parameter of the header that a module is bound to. -/
structure ParamRef where
  module : String
  configuration : String
  name : String
  deriving DecidableEq, Inhabited, Repr

namespace ParamRef

def text (r : ParamRef) : String :=
  r.configuration ++ ":" ++ r.name

/-- The order by module, then header, then name. -/
def le (r s : ParamRef) : Bool :=
  if r.module = s.module then
    if r.configuration = s.configuration then r.name ≤ s.name
    else r.configuration ≤ s.configuration
  else r.module ≤ s.module

end ParamRef

end Configurator
