import Configurator.Error

/-!
# Support

Modules and parameters may say by an expression over tags where they can be used. A `TagEnvironment`
says which tags hold for a CPU; an expression that cannot be evaluated there counts as support, but
the error is kept.
-/

namespace Configurator

/-- For each known tag whether it holds. -/
structure TagEnvironment where
  tags : NameMap Bool
  deriving DecidableEq, Inhabited, Repr

namespace TagEnvironment

/-- Known tags, none of which holds. -/
def ofKnown (known : List String) : TagEnvironment :=
  ⟨.ofList (known.map (·, false))⟩

def set (env : TagEnvironment) (tag : String) (holds : Bool) : TagEnvironment :=
  ⟨env.tags.insert tag holds⟩

/-- What holds for a CPU: its name, its tags, and its toolchain if that is named. -/
def ofFacts (known : List String) (cpuName : String) (cpuTags : List String) (toolchain : String) :
    TagEnvironment :=
  let facts := cpuName :: cpuTags ++ (if toolchain = "" then [] else [toolchain])
  facts.foldl (fun env tag => env.set tag true) (ofKnown known)

def lookup (env : TagEnvironment) : Expr.Environment :=
  fun name => (env.tags.get? name).map .bool

end TagEnvironment

/-- The truth of an expression where certain tags hold. -/
def evalSupports (expression : String) (env : TagEnvironment) : Except Error Bool :=
  match Expr.parse expression.toList with
  | .error e => .error (.supportedExpression expression e)
  | .ok e =>
    match e.eval env.lookup with
    | .error e => .error (.supportedExpression expression e)
    | .ok v => .ok v.truthy

/-- Whether something is supported, and what went wrong in finding out. -/
structure Support where
  supported : Bool
  error : Option Error
  deriving Inhabited

namespace Support

/-- The support that an expression asks for. There is no condition in a blank one. -/
def of (expression : Option String) (env : TagEnvironment) : Support :=
  match expression.filter fun e => Text.trim e.toList ≠ [] with
  | none => ⟨true, none⟩
  | some e =>
    match evalSupports e env with
    | .ok supported => ⟨supported, none⟩
    | .error err => ⟨true, some err⟩

end Support

end Configurator
