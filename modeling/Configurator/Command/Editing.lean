import Configurator.Catalog.Assignment
import Configurator.Command.Session

/-!
# Editing a project

The commands that change what is enabled and what values parameters have. Disabling a module can leave
settings that still require it and modules that were only there for it; both are only dealt with after a
question.
-/

namespace Configurator.Command

/-! ## Enabling -/

def enableOne (c : Catalog) (name : String) : Command Catalog := do
  let (outcome, c) ← attempt (c.select name)
  say ("✓ Enabled " ++ outcome.module)
  sayAll (outcome.autoEnabled.map ("  + " ++ ·))
  return c

/-- Enables modules in turn. -/
def enable (s : Session) (now : Instant) (names : List String) : Command Unit := do
  let catalog ← names.foldlM enableOne s.catalog
  saveSession { s with catalog } now

/-! ## Disabling -/

/-- A question, which is taken to be answered if `yes` says so. -/
def confirm (yes : Bool) : Command Unit :=
  if yes then pure () else throw .unanswered

/-- Turns off parameters in turn, and tells what changed with each. -/
def zeroAll (c : Catalog) : List ParamRef → Except Error (List (ParamRef × Catalog.Change) × Catalog)
  | [] => .ok ([], c)
  | r :: refs => do
    let (change, c) ← c.zeroParameter r
    let (changes, c) ← zeroAll c refs
    return ((r, change) :: changes, c)

/-- Turns off the settings that still require a disabled module, and names the modules that nothing
needs any more because of that. -/
def turnOff (c : Catalog) (yes : Bool) (refs : List ParamRef) : Command (List String × Catalog) := do
  if refs = [] then return ([], c)
  say "\nThese settings still require a disabled module:"
  sayAll (refs.map fun r => "  " ++ r.text ++ " (module " ++ r.module ++ ")")
  confirm yes
  let (changes, c) ← attempt (zeroAll c refs)
  sayAll (changes.map fun (r, change) => "  ✓ " ++ r.text ++ " = " ++ change.newValue)
  return (changes.flatMap fun (_, change) => change.released, c)

/-- The lines on a module that has been released. -/
def releasedLines (outcome : Catalog.Unselected) : List String :=
  (outcome.module :: outcome.disabled).map ("  - " ++ ·)

/-- Disables modules that nothing needs any more. -/
def releaseUnused (c : Catalog) (yes : Bool) (unused : List String) : Command Catalog := do
  if unused = [] then return c
  say "\nNo longer required by any enabled module:"
  sayAll (unused.map ("  " ++ ·))
  confirm yes
  let (outcomes, c) := c.release unused
  sayAll (outcomes.flatMap releasedLines)
  return c

def disableOne (yes : Bool) (c : Catalog) (name : String) : Command Catalog := do
  if !c.isEnabled name then
    discard <| attempt (c.requireModule name)
    say ("! " ++ name ++ " is not enabled")
    return c
  let (outcome, c) ← attempt (c.unselect name)
  say ("✓ Disabled " ++ outcome.module)
  sayAll (outcome.disabled.map ("  - " ++ ·))
  let (released, c) ← turnOff c yes outcome.unsatisfied
  releaseUnused c yes (released.foldl Catalog.addNew outcome.orphans)

/-- Disables modules in turn. -/
def disable (s : Session) (now : Instant) (names : List String) (yes : Bool) : Command Unit := do
  let catalog ← names.foldlM (disableOne yes) s.catalog
  saveSession { s with catalog } now

/-! ## Parameters -/

/-- The path of the header that a module's name or the path itself means. -/
def configurationOf? (c : Catalog) (target : String) : Option String :=
  match c.moduleHeader? target with
  | some h => some h.path
  | none => if c.headers.contains target then some target else none

/-- What is said about modules that nothing needs any more. -/
def hintLines (released : List String) : List String :=
  if released = [] then []
  else ["\n! No longer required: " ++ Text.join ", " released,
    "  Run modforge disable " ++ Text.join " " released ++ " to remove them"]

/-- Gives a parameter a value. Nothing is saved if it has that value already. -/
def assign (s : Session) (now : Instant) (target name value : String) : Command Unit := do
  match configurationOf? s.catalog target with
  | none => throw (.noConfiguration target)
  | some configuration =>
    let p ← attempt (s.catalog.parameter configuration name)
    if !(Support.of p.supports s.project.tagEnvironment).supported then
      say ("! " ++ name ++ " is not supported on " ++ s.project.cpu.name)
    let (change, catalog) ← attempt (s.catalog.setParameter configuration name value)
    if !change.changed then say ("✓ " ++ change.name ++ " already " ++ change.newValue)
    else
      say ("✓ " ++ change.name ++ " " ++ change.oldValue ++ " → " ++ change.newValue)
      sayAll (change.enabled.map ("  + " ++ ·))
      sayAll (hintLines change.released)
      saveSession { s with catalog } now

end Configurator.Command
