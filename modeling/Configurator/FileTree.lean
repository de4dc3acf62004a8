import Configurator.NameMap
import Configurator.Path

/-!
# File trees

What a program sees of the disk: which directories and files there are, what the files hold, and the
directory that it works in. Reading and writing are functions on trees, so that a program which uses
files is a function as well.

A path leads to a place step by step. A dot and an empty part stay where they are and two dots lead
back, and all three need a directory to stand in.
-/

namespace Configurator

/-- What a file holds: a text, or bytes that are the UTF-8 form of no text. -/
inductive FileTree.Content where
  | text (s : String)
  | binary (bytes : List UInt8)
  deriving DecidableEq, Inhabited, Repr

inductive FileTree.Entry where
  | file (content : Content)
  | directory
  deriving DecidableEq, Inhabited, Repr

/-- The entries of a tree by absolute path, and the directory that relative paths start from, whose
parts are listed. A path stands for the root if it has no part. -/
structure FileTree where
  entries : NameMap FileTree.Entry
  workingDir : List String
  deriving DecidableEq, Inhabited, Repr

namespace FileTree

/-- Why the disk refuses something. -/
inductive Fault where
  | notFound
  | notDirectory
  | isDirectory
  | exists
  | notText
  /-- A path has a NUL character in it. -/
  | notPath
  | nameTooLong
  deriving DecidableEq, Inhabited, Repr

def Fault.message : Fault → String
  | .notFound => "No such file or directory (os error 2)"
  | .notDirectory => "Not a directory (os error 20)"
  | .isDirectory => "Is a directory (os error 21)"
  | .exists => "File exists (os error 17)"
  | .notText => "stream did not contain valid UTF-8"
  | .notPath => "file name contained an unexpected NUL byte"
  | .nameTooLong => "File name too long (os error 36)"

/-! ## Places -/

/-- The absolute path with the given parts. -/
def key (parts : List String) : String :=
  String.join (parts.map ("/" ++ ·))

/-- The absolute path of the working directory. -/
def workingPath (t : FileTree) : String :=
  if t.workingDir = [] then "/" else key t.workingDir

/-- What stands at a place. The root is a directory in any tree. -/
def entry? (t : FileTree) (parts : List String) : Option Entry :=
  if parts = [] then some .directory else t.entries.get? (key parts)

/-- Whether a name has more bytes than any entry can have. -/
def isTooLong (name : String) : Bool :=
  255 < Text.byteSize name.toList

/-- Follows the parts of a path from a directory. -/
def walk (t : FileTree) (dir : List String) : List String → Except Fault (List String)
  | [] => .ok dir
  | part :: parts =>
    if part = "" ∨ part = "." ∨ part = ".." ∨ isTooLong part then
      match t.entry? dir with
      | some .directory =>
        if isTooLong part then .error .nameTooLong
        else walk t (if part = ".." then dir.dropLast else dir) parts
      | some (.file _) => .error .notDirectory
      | none => .error .notFound
    else walk t (dir ++ [part]) parts

/-- The parts of a path between its slashes; none for the empty path. -/
def partsOf (path : String) : List String :=
  if path = "" then [] else (path.toList.splitOn '/').map String.ofList

/-- The parts of a path that the disk takes. It takes no NUL character and less than 4096 bytes. -/
def partsOf? (path : String) : Except Fault (List String) :=
  if '\x00' ∈ path.toList then .error .notPath
  else if 4096 ≤ Text.byteSize path.toList then .error .nameTooLong
  else .ok (partsOf path)

/-- The directory that a path starts from. -/
def startOf (t : FileTree) (path : String) : List String :=
  if Path.isAbsolute path then [] else t.workingDir

/-- The place that a path leads to, which does not have to be there. -/
def locate (t : FileTree) (path : String) : Except Fault (List String) := do
  if path = "" then throw .notFound
  t.walk (t.startOf path) (← partsOf? path)

/-- What a path leads to. -/
def find? (t : FileTree) (path : String) : Option Entry :=
  match t.locate path with
  | .ok parts => t.entry? parts
  | .error _ => none

def exists? (t : FileTree) (path : String) : Bool :=
  (t.find? path).isSome

def isDirectory (t : FileTree) (path : String) : Bool :=
  t.find? path = some .directory

def isFile (t : FileTree) (path : String) : Bool :=
  match t.find? path with
  | some (.file _) => true
  | _ => false

/-! ## Reading -/

/-- The text that a file holds. -/
def read (t : FileTree) (path : String) : Except Fault String := do
  match t.entry? (← t.locate path) with
  | some (.file (.text s)) => .ok s
  | some (.file (.binary _)) => .error .notText
  | some .directory => .error .isDirectory
  | none => .error .notFound

/-- The files below a path, relative to it and in increasing order. A file is below itself. -/
def filesBelow (t : FileTree) (path : String) : List String :=
  match t.locate path with
  | .error _ => []
  | .ok parts =>
    match t.entry? parts with
    | none => []
    | some (.file _) => [""]
    | some .directory =>
      let start := (key parts).toList ++ ['/']
      t.entries.entries.filterMap fun (path, entry) =>
        match entry with
        | .directory => none
        | .file _ => (Text.dropPrefix? start path.toList).map String.ofList

/-! ## Writing -/

/-- The tree with something put at a place. -/
def put (t : FileTree) (parts : List String) (entry : Entry) : FileTree :=
  { t with entries := t.entries.insert (key parts) entry }

/-- Puts a file at a path, in place of one that is there. -/
def write (t : FileTree) (path : String) (content : Content) : Except Fault FileTree := do
  let parts ← t.locate path
  match t.entry? parts with
  | some .directory => .error .isDirectory
  | some (.file _) => .ok (t.put parts (.file content))
  | none =>
    match t.entry? parts.dropLast with
    | some .directory => .ok (t.put parts (.file content))
    | some (.file _) => .error .notDirectory
    | none => .error .notFound

/-- Makes a directory at each place of a way down, where there is none yet. Those that were made before
a fault stay. -/
def makeWay (t : FileTree) (dir : List String) : List String → Except Fault Unit × FileTree
  | [] => (.ok (), t)
  | part :: parts =>
    if part = "" ∨ part = "." then makeWay t dir parts
    else if part = ".." then makeWay t dir.dropLast parts
    else if isTooLong part then (.error .nameTooLong, t)
    else
      match t.entry? (dir ++ [part]) with
      | some .directory => makeWay t (dir ++ [part]) parts
      | some (.file _) => (.error (if parts = [] then .exists else .notDirectory), t)
      | none => makeWay (t.put (dir ++ [part]) .directory) (dir ++ [part]) parts

/-- Makes the directory that a path leads to, and those on the way. -/
def makeDirectories (t : FileTree) (path : String) : Except Fault Unit × FileTree :=
  match partsOf? path with
  | .error fault => (.error fault, t)
  | .ok parts => t.makeWay (t.startOf path) parts

/-- The tree without what a path leads to, and whether there was anything. -/
def remove (t : FileTree) (path : String) : Bool × FileTree :=
  match t.locate path with
  | .error _ => (false, t)
  | .ok parts =>
    let start := (key parts).toList
    let gone (path : String) : Bool :=
      path.toList = start || (start ++ ['/']).isPrefixOf path.toList
    let kept := { t with
      entries := ⟨t.entries.entries.filter (!gone ·.1), t.entries.sorted.filter _⟩ }
    ((t.entry? parts).isSome, kept)

end FileTree

end Configurator
