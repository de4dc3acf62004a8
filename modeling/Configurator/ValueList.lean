import Configurator.Directive
import Configurator.NameMap

/-!
# Value lists

Documentation blocks behind the first one of a file may name lists of values, which parameters of
type enum choose from.
-/

namespace Configurator

structure ValueList where
  name : String
  values : List String
  deriving DecidableEq, Inhabited, Repr

namespace ValueList

/-- Lists by name with those of one line added; a later list replaces an earlier one of its name. -/
def addLine (lists : NameMap (List String)) (line : String) (index : Nat) :
    Except Directive.Error (NameMap (List String)) := do
  (← Directive.assignments index line).foldlM (fun lists a => do
    pure (lists.insert a.key (← a.strings))) lists

/-- The lists that blocks declare. Each value has to be a string or a tuple of strings. -/
def ofBlocks (blocks : List (List String)) : Except Directive.Error (NameMap (List String)) :=
  blocks.foldlM (fun lists lines =>
    lines.zipIdx.foldlM (fun lists (line, index) => addLine lists line index) lists) .empty

end ValueList

end Configurator
