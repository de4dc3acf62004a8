import Configurator.Directive
import Configurator.FileTree

/-!
# What can go wrong

The causes for which an operation of the library fails, one per constructor, and what a user is told
in `Error.message`.
-/

namespace Configurator

/-- Why a parameter does not take a value. -/
inductive Rejection where
  | followsModule
  | notBoolean
  | notInteger
  | belowMinimum (min : Int)
  | aboveMaximum (max : Int)
  | notListed (values : List String)
  deriving DecidableEq, Inhabited, Repr

def Rejection.message : Rejection → String
  | .followsModule => "follows the module's enabled state"
  | .notBoolean => "expected 0, 1, true or false"
  | .notInteger => "not an integer"
  | .belowMinimum min => "below minimum " ++ toString min
  | .aboveMaximum max => "above maximum " ++ toString max
  | .notListed values => "not one of " ++ ", ".intercalate values

inductive Error where
  | io (fault : FileTree.Fault)
  | json (reason : String)
  /-- A directive in the block that declares a module. -/
  | moduleDefinition (path : String) (e : Directive.Error)
  /-- A directive that declares a value list. -/
  | enumDefinition (path : String) (e : Directive.Error)
  /-- A directive of a parameter. -/
  | configurationDefinition (path : String) (e : Directive.Error)
  | supportedExpression (expression : String) (reason : Expr.Error)
  | missingSourceRoot (path : String)
  | missingToolchain (path : String)
  | missingTemplate (path : String)
  /-- A file that cannot be written. -/
  | generation (path : String) (fault : FileTree.Fault)
  | unknownModule (name : String)
  | unknownConfiguration (path : String)
  | unknownParameter (configuration name : String)
  | invalidValue (name value : String) (reason : Rejection)
  deriving Inhabited, Repr

namespace Error

/-- Where a directive stands and what its text is. -/
def definitionMessage (what path : String) (e : Directive.Error) : String :=
  what ++ " error in " ++ path ++ " (line " ++ toString e.line ++ " of block): " ++ e.text

def message : Error → String
  | .io fault => "IO error: " ++ fault.message
  | .json reason => "JSON error: " ++ reason
  | .moduleDefinition path e => definitionMessage "module definition" path e
  | .enumDefinition path e => definitionMessage "enum definition" path e
  | .configurationDefinition path e => definitionMessage "configuration parameter" path e
  | .supportedExpression expression reason =>
    "cannot evaluate supports expression '" ++ expression ++ "': " ++ reason.message
  | .missingSourceRoot path => "source root not found: " ++ path
  | .missingToolchain path => "toolchain not found: " ++ path
  | .missingTemplate path => "template not found: " ++ path
  | .generation path fault => "cannot write " ++ path ++ ": " ++ fault.message
  | .unknownModule name => "unknown module: " ++ name
  | .unknownConfiguration path => "unknown configuration file: " ++ path
  | .unknownParameter configuration name =>
    "unknown parameter " ++ name ++ " in " ++ configuration
  | .invalidValue name value reason =>
    "invalid value '" ++ value ++ "' for " ++ name ++ ": " ++ reason.message

end Error

end Configurator
