import Configurator.Text

/-!
# Paths

A path is a text whose parts stand between slashes. The functions here cut and join paths without
looking at any file: empty parts and inner dots do not count, so different texts can have the same
components, but what is kept of a text is kept as it is written.
-/

namespace Configurator.Path

inductive Component where
  | root
  | current
  | parent
  | name (text : List Char)
  deriving DecidableEq, Inhabited, Repr

/-- A component with where it stands in its path. -/
structure Piece where
  component : Component
  start : Nat
  stop : Nat
  deriving DecidableEq, Inhabited, Repr

/-- What one part between slashes stands for, if anything. -/
def componentOf? (part : List Char) : Option Component :=
  if part = [] ∨ part = ['.'] then none
  else if part = ['.', '.'] then some .parent
  else some (.name part)

/-- The pieces of parts of which the first starts at `start`. -/
def piecesOf (start : Nat) : List (List Char) → List Piece
  | [] => []
  | part :: parts =>
    let more := piecesOf (start + part.length + 1) parts
    match componentOf? part with
    | some c => ⟨c, start, start + part.length⟩ :: more
    | none => more

/-- The components of a path. A slash at the beginning is the root, and a dot only counts there. -/
def pieces (path : List Char) : List Piece :=
  match path with
  | '/' :: rest => ⟨.root, 0, 1⟩ :: piecesOf 1 (rest.splitOn '/')
  | _ =>
    match path.splitOn '/' with
    | ['.'] :: rest => ⟨.current, 0, 1⟩ :: piecesOf 2 rest
    | parts => piecesOf 0 parts

def components (path : String) : List Component :=
  (pieces path.toList).map (·.component)

def isAbsolute (path : String) : Bool :=
  path.toList.head? = some '/'

/-- `path` as seen from `base`; an absolute path stays what it is. -/
def join (base path : String) : String :=
  if isAbsolute path ∨ base = "" then path
  else if base.toList.getLast? = some '/' then base ++ path
  else base ++ "/" ++ path

/-- The path without its last component. The root and the empty path have no parent. -/
def parent? (path : String) : Option String :=
  match (pieces path.toList).reverse with
  | [] => none
  | last :: before =>
    if last.component = .root then none
    else
      let stop := (before.head?.map (·.stop)).getD 0
      some (String.ofList (path.toList.take stop))

/-- The last component, if it is a name. -/
def fileName? (path : String) : Option String :=
  match (pieces path.toList).getLast? with
  | some ⟨.name text, _, _⟩ => some (String.ofList text)
  | _ => none

/-- A file name before and behind its last dot. A dot in front of a name does not divide it. -/
def splitExtension (name : List Char) : List Char × Option (List Char) :=
  let extension := (name.reverse.takeWhile (· ≠ '.')).reverse
  let stem := name.take (name.length - extension.length - 1)
  if stem = [] then (name, none) else (stem, some extension)

def fileStem? (path : String) : Option String :=
  (fileName? path).map fun name => String.ofList (splitExtension name.toList).1

def extension? (path : String) : Option String :=
  (fileName? path).bind fun name => (splitExtension name.toList).2.map String.ofList

/-- The pieces of a path behind those that it shares with `base`, if those are all of `base`. -/
def piecesAfter? : (base path : List Piece) → Option (List Piece)
  | [], path => some path
  | _ :: _, [] => none
  | b :: base, p :: path => if b.component = p.component then piecesAfter? base path else none

/-- The path from `base` to `path`, if `base` leads to it. -/
def stripPrefix? (base path : String) : Option String :=
  let whole := pieces path.toList
  (piecesAfter? (pieces base.toList) whole).map fun rest =>
    match rest.head?, rest.getLast? with
    | some first, some last =>
      let start := if rest.length = whole.length then 0 else first.start
      String.ofList ((path.toList.take last.stop).drop start)
    | _, _ => ""

/-! ## Order -/

/-- Whether one component comes before another: the root before a dot, a dot before two dots, and all
three before names, which are in the order of their characters. -/
def Component.lt : Component → Component → Bool
  | .name a, .name b => String.ofList a < String.ofList b
  | _, .name _ => true
  | .root, .current | .root, .parent | .current, .parent => true
  | _, _ => false

/-- Whether one list of components comes before another or is the same, when they are compared one by
one. -/
def componentsLe : List Component → List Component → Bool
  | [], _ => true
  | _ :: _, [] => false
  | a :: as, b :: bs => a.lt b || (a = b && componentsLe as bs)

/-- Whether one path comes before another or has the same components. -/
def le (a b : String) : Bool :=
  componentsLe (components a) (components b)

/-- Of neighbours with the same components, only the last. -/
def lastOfEach : List String → List String
  | [] => []
  | [path] => [path]
  | path :: next :: paths =>
    if components path = components next then lastOfEach (next :: paths)
    else path :: lastOfEach (next :: paths)

end Configurator.Path
