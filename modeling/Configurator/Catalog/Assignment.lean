import Configurator.Catalog.Selection
import Configurator.Header.Accept

/-!
# Changing parameters

Values are changed through the catalogue, because a boolean parameter can require modules: setting one
enables them when an enabled module is bound to its header, and clearing one names those that nothing
needs any more.
-/

namespace Configurator.Catalog

/-- The catalogue with the parameters of one header changed. -/
def modifyHeader (c : Catalog) (path : String) (f : Header → Header) : Catalog :=
  { c with headers := c.headers.modify path f }

/-- The catalogue with a parameter in place of the one of its name, before anything follows. -/
def withParameter (c : Catalog) (configuration name : String) (p : Parameter) : Catalog :=
  c.modifyHeader configuration fun h => h.update name fun _ => p

/-- What giving a parameter a value changed. -/
structure Change where
  configuration : String
  name : String
  oldValue : String
  newValue : String
  /-- Modules that were enabled because the parameter requires them now. -/
  enabled : List String
  /-- Modules that the parameter required and nothing needs any more. They stay enabled. -/
  released : List String
  deriving DecidableEq, Inhabited, Repr

def Change.changed (change : Change) : Bool :=
  change.oldValue ≠ change.newValue

/-- The enabled modules that are bound to a header. -/
def owners (c : Catalog) (configuration : String) : List String :=
  (c.enabledModules.filter (·.configuration = some configuration)).map (·.name)

/-- Refreshes the bare files of some modules. -/
def refreshAll (c : Catalog) (names : List String) : Catalog :=
  names.foldl refreshContribution c

/-- Gives a parameter a value, and follows what it requires. -/
def Update.setParameter (configuration name value : String) : Update Change := do
  let old ← check ((← get).parameter configuration name)
  let choices := old.valueList.bind (← get).lists.get?
  match old.accept choices value with
  | .error rejection => throw (.invalidValue name value rejection)
  | .ok new =>
    modify (·.withParameter configuration name new)
    let change : Change := ⟨configuration, name, old.value, new.value, [], []⟩
    let owners := (← get).owners configuration
    if old.type ≠ .boolean ∨ old.conditionalDeps = [] ∨ owners = [] ∨ old.isSet = new.isSet then
      return change
    else
      modify (·.refreshAll owners)
      if new.isSet then
        let enabled ← modifyGet fun c => (c.pull old.conditionalDeps).swap
        return { change with enabled }
      else
        let c ← get
        let released := old.conditionalDeps.filter fun dep =>
          c.isEnabled dep && !c.isExplicit dep && !c.isRequired dep []
        return { change with released }

/-- `Update.setParameter` as a function that gives the catalogue after it, or fails. -/
def setParameter (c : Catalog) (configuration name value : String) :
    Except Error (Change × Catalog) :=
  (Update.setParameter configuration name value).outcome c

/-- Clears a boolean parameter. -/
def Update.zeroParameter (r : ParamRef) : Update Change :=
  setParameter r.configuration r.name "0"

/-- `Update.zeroParameter` as a function that gives the catalogue after it, or fails. -/
def zeroParameter (c : Catalog) (r : ParamRef) : Except Error (Change × Catalog) :=
  (Update.zeroParameter r).outcome c

/-- A header with its parameters of type autoenabled at a value. -/
def withAutoenabled (value : String) (h : Header) : Header :=
  h.mapParams fun p => if p.type = .autoenabled then { p with value } else p

/-- How many parameters that changes. -/
def countAutoenabled (value : String) (h : Header) : Nat :=
  h.params.countP fun p => p.type = .autoenabled && p.value ≠ value

/-- The value that shows whether a module is enabled. -/
def enabledValue (enabled : Bool) : String :=
  if enabled then "1" else "0"

/-- Makes the parameters of a module's header show whether it is enabled, and adds to a count how many
that changes. -/
def syncModule (state : Nat × Catalog) (m : Module) : Nat × Catalog :=
  let (updated, c) := state
  match m.configuration.bind fun path => (c.headers.get? path).map (path, ·) with
  | none => (updated, c)
  | some (path, h) =>
    let value := enabledValue m.enabled
    (updated + countAutoenabled value h, c.modifyHeader path (withAutoenabled value))

/-- Makes parameters of type autoenabled show the state of the modules that their header is bound to.
Where modules share a header, the last one by name counts. -/
def syncAutoenabled (c : Catalog) : Nat × Catalog :=
  c.modules.values.foldl syncModule (0, c)

/-- Takes values over from a copy of a header, and says how many. -/
def Update.applyUserConfiguration (configuration text : String) : Update Nat := do
  let copy ← check ((Header.parse configuration text).mapError
    (.configurationDefinition configuration))
  match (← get).headers.get? configuration with
  | none => throw (.unknownConfiguration configuration)
  | some h =>
    modify (·.modifyHeader configuration (·.merge copy))
    return h.mergeCount copy

/-- `Update.applyUserConfiguration` as a function that gives the catalogue after it, or fails. -/
def applyUserConfiguration (c : Catalog) (configuration text : String) :
    Except Error (Nat × Catalog) :=
  (Update.applyUserConfiguration configuration text).outcome c

end Configurator.Catalog
