import Configurator.Directive
import Configurator.NameMap

/-!
# Comments of parameters

The comment of a define describes it and may restrict it by directives.
-/

namespace Configurator.Header

/-- What directives say about a parameter. -/
structure Directives where
  kind : Option String := none
  min : Option Int := none
  max : Option Int := none
  valueList : Option String := none
  conditionalDeps : List String := []
  long : Bool := false
  unsigned : Bool := false
  supports : Option String := none
  /-- All keys that have no meaning of their own. -/
  extra : NameMap Value := .empty
  deriving DecidableEq, Inhabited, Repr

/-- Directives with one more key assigned. Conditional dependencies of a wrong kind count as none. -/
def Directives.assign (d : Directives) (a : Directive.Assigned) :
    Except Directive.Error Directives :=
  match a.key with
  | "type" => do pure { d with kind := some (← a.string) }
  | "min" => do pure { d with min := some (← a.integer) }
  | "max" => do pure { d with max := some (← a.integer) }
  | "value_list" => do pure { d with valueList := some (← a.string) }
  | "conditional_deps" => .ok { d with conditionalDeps := a.value.strings?.getD [] }
  | "long" => .ok { d with long := a.value.truthy }
  | "unsigned" => .ok { d with unsigned := a.value.truthy }
  | "supports" => do pure { d with supports := some (← a.string) }
  | key => .ok { d with extra := d.extra.insert key a.value }

/-- The documentation of a parameter. -/
structure Comment where
  brief : String := ""
  description : String := ""
  directives : Directives := {}
  deriving DecidableEq, Inhabited, Repr

namespace Comment

/-- What a line says apart from its directive. -/
def proseOf (line : String) : String :=
  let prose := match Directive.split? line with
    | some (before, _) => before
    | none => line
  String.ofList (Text.trim prose.toList)

/-- A comment with the prose of one more line: the first that is not empty is the brief, and the others
make up the description with a space between them. -/
def addProse (c : Comment) (prose : String) : Comment :=
  if c.brief = "" then { c with brief := prose }
  else if prose = "" then c
  else if c.description = "" then { c with description := prose }
  else { c with description := c.description ++ " " ++ prose }

def addLine (c : Comment) (line : String) (index : Nat) : Except Directive.Error Comment := do
  let directives ← (← Directive.assignments index line).foldlM Directives.assign c.directives
  pure { c.addProse (proseOf line) with directives }

/-- The documentation that the lines of a comment make up. -/
def ofLines (lines : List String) : Except Directive.Error Comment :=
  lines.zipIdx.foldlM (fun c (line, index) => c.addLine line index) {}

end Comment

end Configurator.Header
