import Configurator.Catalog.Basic
import Configurator.Error

/-!
# Updates

An update changes a catalogue step by step and gives a result, or fails. Steps that were taken before it
fails are not taken back. The updates of this library look at all that can be wrong before they change
anything; that is not in the form of an update, but follows from how each of them is made up.
-/

namespace Configurator

/-- What changes a catalogue and gives a result, or fails. What it has changed before it fails stays. -/
abbrev Catalog.Update (α : Type) : Type :=
  ExceptT Error (StateM Catalog) α

namespace Catalog.Update

variable {α : Type}

/-- What an update gives, and the catalogue that it leaves. -/
def runOn (u : Update α) (c : Catalog) : Except Error α × Catalog :=
  StateT.run (ExceptT.run u) c

/-- The catalogue that an update leaves, whether it fails or not. -/
def leaves (u : Update α) (c : Catalog) : Catalog :=
  (u.runOn c).2

/-- What an update gives together with the catalogue that it leaves, for callers that give up where it
fails. -/
def outcome (u : Update α) (c : Catalog) : Except Error (α × Catalog) :=
  match u.runOn c with
  | (.ok a, d) => .ok (a, d)
  | (.error e, _) => .error e

/-- Goes on with what was looked up, if it was found. -/
def check : Except Error α → Update α
  | .ok a => pure a
  | .error e => throw e

end Catalog.Update

end Configurator
