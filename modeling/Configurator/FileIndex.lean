import Configurator.FileTree
import Configurator.Glob

/-!
# File indexes

An index answers which files below a root match a pattern or have a name. It lists the tree when an
answer first needs that, and goes by that listing until it is invalidated, whatever happens to the
tree meanwhile. Answers by pattern and by name are kept as well.
-/

namespace Configurator

structure FileIndex where
  root : String
  /-- Patterns of files that do not count. -/
  exclude : List Glob
  /-- Paths relative to the root in increasing order, once the tree has been listed. -/
  listing : Option (List String)
  /-- Answers by pattern. -/
  found : NameMap (List String)
  /-- Answers by file name; nothing until one is asked for. -/
  byName : NameMap (List String)
  deriving DecidableEq, Inhabited, Repr

namespace FileIndex

/-- An index that has listed nothing yet. Malformed patterns exclude nothing. -/
def new (root : String) (exclude : List String) : FileIndex :=
  ⟨root, exclude.filterMap Glob.parse?, none, .empty, .empty⟩

/-- Forgets the listing and all answers. -/
def invalidate (index : FileIndex) : FileIndex :=
  { index with listing := none, found := .empty, byName := .empty }

/-- A path in which a backslash counts as a slash. -/
def withSlashes (path : String) : String :=
  String.ofList (path.toList.map fun c => if c = '\\' then '/' else c)

/-- The files below the root that count, as the tree is now. -/
def listed (index : FileIndex) (tree : FileTree) : List String :=
  let paths := (tree.filesBelow index.root).map withSlashes
  (paths.filter fun path => !index.exclude.any (·.admits path)).mergeSort (· ≤ ·)

/-- The listing that the index goes by. -/
def files (index : FileIndex) (tree : FileTree) : List String × FileIndex :=
  match index.listing with
  | some paths => (paths, index)
  | none =>
    let paths := index.listed tree
    (paths, { index with listing := some paths })

/-- The paths that match a pattern. A malformed pattern matches nothing. -/
def find (index : FileIndex) (tree : FileTree) (pattern : String) : List String × FileIndex :=
  match index.found.get? pattern with
  | some paths => (paths, index)
  | none =>
    let (paths, index) := match Glob.parse? pattern with
      | some glob =>
        let (paths, index) := index.files tree
        (paths.filter glob.admits, index)
      | none => ([], index)
    (paths, { index with found := index.found.insert pattern paths })

/-- The part of a path behind its last slash. -/
def nameOf (path : String) : String :=
  String.ofList (path.toList.reverse.takeWhile (· ≠ '/')).reverse

/-- Paths by file name, in the order of the list. -/
def groupByName (paths : List String) : NameMap (List String) :=
  paths.foldl (fun groups path =>
    groups.insert (nameOf path) ((groups.get? (nameOf path)).getD [] ++ [path])) .empty

/-- The paths with a file name. -/
def findNamed (index : FileIndex) (tree : FileTree) (name : String) :
    List String × FileIndex :=
  let index :=
    if index.byName.isEmpty then
      let (paths, index) := index.files tree
      { index with byName := groupByName paths }
    else index
  ((index.byName.get? name).getD [], index)

/-- The number of files in the listing. -/
def count (index : FileIndex) (tree : FileTree) : Nat × FileIndex :=
  let (paths, index) := index.files tree
  (paths.length, index)

/-- Whether the listing has no file. -/
def isEmpty (index : FileIndex) (tree : FileTree) : Bool × FileIndex :=
  let (n, index) := index.count tree
  (n = 0, index)

end FileIndex

end Configurator
