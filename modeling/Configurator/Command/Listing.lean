import Configurator.Command.Session

/-!
# Listing modules

The commands that only show something: which modules there are and in which state, as a table or as
JSON, and all that is known of one module and its parameters.
-/

namespace Configurator.Command

/-- A text that is filled with blanks up to a width. -/
def padded (width : Nat) (text : String) : String :=
  text.pushn ' ' (width - text.length)

/-- What a listing says about a module. -/
structure Row where
  name : String
  category : String
  enabled : Bool
  explicit : Bool
  support : Support
  description : String
  deriving Inhabited

namespace Row

def ofModule (c : Catalog) (env : TagEnvironment) (m : Module) : Row where
  name := m.name
  category := m.category
  enabled := m.enabled
  explicit := c.isExplicit m.name
  support := .of m.supports env
  description := m.description

def toJson (r : Row) : Json :=
  .record (
    [("name", .text r.name), ("category", .text r.category), ("enabled", .bool r.enabled),
      ("explicit", .bool r.explicit), ("supported", .bool r.support.supported)]
      ++ r.support.error.toList.map (fun e => ("support_error", .text e.message))
      ++ [("description", .text r.description)])

/-- The sign of a module's state. -/
def mark (r : Row) : String :=
  if !r.enabled then " " else if r.explicit then "✓" else "+"

def lines (r : Row) : List String :=
  let name := if r.support.supported then r.name else r.name ++ " (unsupported)"
  ("  " ++ r.mark ++ " " ++ padded 24 name ++ " " ++ r.description)
    :: r.support.error.toList.map fun e => "      ! " ++ e.message

end Row

/-- The lines of a table. Where the category changes a line names it; `category` is that of the rows
before. -/
def tableLines (category : String) : List Row → List String
  | [] => []
  | r :: rows =>
    (if r.category = category then [] else [r.category]) ++ r.lines ++ tableLines r.category rows

/-- The rows of the modules that are asked for. -/
def rowsOf (s : Session) (category : Option String) (enabled : Bool) : List Row :=
  let modules := s.catalog.modules.values.filter fun m =>
    category.all (m.category = ·) && (!enabled || m.enabled)
  modules.map (Row.ofModule s.catalog s.project.tagEnvironment)

/-- Lists modules. -/
def list (s : Session) (category : Option String) (enabled json : Bool) : Command Unit := do
  let rows := rowsOf s category enabled
  if json then say (Json.array (rows.map Row.toJson)).pretty
  else
    sayAll (tableLines "" rows)
    say ("\n" ++ toString (rows.countP (·.enabled)) ++ " enabled, " ++ toString rows.length
      ++ " total (✓ = selected, + = pulled in)")

/-! ## One module -/

/-- A bound as it is shown; nothing if there is none. -/
def boundText (bound : Option Int) : String :=
  (bound.map toString).getD ""

/-- What values a parameter can have, or what it requires. -/
def constraintLines (c : Catalog) (p : Parameter) : List String :=
  match p.type with
  | .integer =>
    if p.min.isSome || p.max.isSome then
      ["      range [" ++ boundText p.min ++ ", " ++ boundText p.max ++ "]"]
    else []
  | .enum =>
    ((p.valueList.bind c.lists.get?).map fun l => "      one of: " ++ Text.join ", " l.values).toList
  | .boolean =>
    if p.conditionalDeps = [] then []
    else ["      when set, requires: " ++ Text.join ", " p.conditionalDeps]
  | _ => []

def parameterLines (c : Catalog) (p : Parameter) : List String :=
  ("  " ++ padded 32 p.name ++ " " ++ padded 12 p.rendered ++ " " ++ p.type.name)
    :: (if p.brief = "" then [] else ["      " ++ p.brief])
    ++ constraintLines c p

/-- The lines on a header and its parameters. -/
def headerLines (c : Catalog) (h : Header) : List String :=
  ("\nConfiguration " ++ h.path) :: h.params.flatMap (parameterLines c)

/-- A line for a list of names, unless it is empty. -/
def namesLine (label : String) (names : List String) : List String :=
  if names = [] then [] else [label ++ Text.join ", " names]

def moduleLines (c : Catalog) (m : Module) : List String :=
  [m.name ++ " " ++ m.description, "  category:     " ++ m.category,
      "  defined in:   " ++ m.definedIn,
      "  state:        " ++ if m.enabled then "enabled" else "disabled"]
    ++ m.supports.toList.map ("  supports:     " ++ ·)
    ++ m.harvard.toList.map (fun mode => "  harvard:      " ++ mode.name)
    ++ namesLine "  depends on:   " (c.effectiveDeps m.name)
    ++ namesLine "  required by:  " (c.hardDependents m.name)
    ++ m.constants.entries.map (fun (key, value) => "  " ++ key ++ " = " ++ value.text)

/-- Shows a module. -/
def describe (s : Session) (name : String) : Command Unit := do
  let m ← attempt (s.catalog.requireModule name)
  sayAll (moduleLines s.catalog m)
  match s.catalog.moduleHeader? m.name with
  | none => return
  | some h => sayAll (headerLines s.catalog h)

end Configurator.Command
