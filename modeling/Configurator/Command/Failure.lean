import Configurator.Error

/-!
# Failing commands

Why a command fails, and what it then tells the user: what it could not do, and below that the causes
from the nearest one to the last.
-/

namespace Configurator

/-- What lies behind an error, if that is an error of another kind. -/
def Error.causes : Error → List String
  | .io fault => [fault.message]
  | .json reason => [reason]
  | .generation _ fault => [fault.message]
  | _ => []

namespace Command

/-- What a command was doing when an error came up. -/
inductive Activity where
  | opening (descriptor : String)
  | scanning (sourceRoot : String)
  | readingGenerated
  | loadingTemplates
  | writing (descriptor : String)
  deriving DecidableEq, Inhabited, Repr

def Activity.message : Activity → String
  | .opening descriptor => "Failed to open project " ++ descriptor
  | .scanning sourceRoot => "Failed to scan " ++ sourceRoot
  | .readingGenerated => "Failed to read generated configuration files"
  | .loadingTemplates => "Failed to load build templates"
  | .writing descriptor => "Failed to write " ++ descriptor

inductive Failure where
  | error (e : Error)
  /-- An error within an activity. -/
  | during (activity : Activity) (e : Error)
  /-- There is no descriptor. -/
  | noProject (descriptor : String)
  /-- There is a descriptor already. -/
  | alreadyExists (descriptor : String)
  /-- Neither a module with a header nor the path of one. -/
  | noConfiguration (target : String)
  /-- A question that nobody is there to answer. -/
  | unanswered
  deriving Inhabited, Repr

namespace Failure

/-- What could not be done, followed by the causes. -/
def chain : Failure → List String
  | .error e => e.message :: e.causes
  | .during activity e => activity.message :: e.message :: e.causes
  | .noProject descriptor => ["No " ++ descriptor ++ " found"]
  | .alreadyExists descriptor => [descriptor ++ " already exists. Use --force to overwrite."]
  | .noConfiguration target => ["No configuration file for " ++ target]
  | .unanswered => ["IO error: not a terminal", "not a terminal"]

/-- A cause behind a margin, which the other lines of it stand behind as well. -/
def indented (first others cause : String) : String :=
  "\n" ++ first ++ Text.join ("\n" ++ others) ((cause.toList.splitOn '\n').map String.ofList)

/-- The list of causes. Several ones are numbered. -/
def causesText : List String → String
  | [] => ""
  | [cause] => "\n\nCaused by:" ++ indented "    " "    " cause
  | causes =>
    "\n\nCaused by:" ++ String.join (causes.zipIdx.map fun (cause, index) =>
      let number := toString index
      indented ("".pushn ' ' (5 - number.length) ++ number ++ ": ") "       " cause)

/-- What the user is told. -/
def report : Failure → String
  | .noProject descriptor =>
    "✗ No " ++ descriptor ++ " found\n  Run 'modforge init' to create a project\n"
      ++ "  Use 'modforge init --help' for the available options\n"
  | failure =>
    match failure.chain with
    | [] => ""
    | head :: causes => "Error: " ++ head ++ causesText causes ++ "\n"

end Failure

end Command

end Configurator
