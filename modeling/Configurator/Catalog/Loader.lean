import Configurator.Catalog.Basic
import Configurator.Comment.Block
import Configurator.FileIndex
import Configurator.Settings

/-!
# Reading a source tree

The files of a tree that match the settings are read in the order of their paths. The first block of a
file may declare its module, and further blocks value lists; the headers that modules name are read in
the end.
-/

namespace Configurator.Catalog

/-- What a file declares. -/
structure Declarations where
  module : Option ModuleDefinition
  lists : NameMap (List String)
  deriving Inhabited

/-- Whether a file is a header for one of the tags. -/
def isTagHeader (tags : List String) (path : String) : Bool :=
  match Path.fileName? path with
  | none => false
  | some name =>
    match Text.dropPrefix? ['h', '.'] name.toList.reverse with
    | none => false
    | some stem => tags.any fun tag => ('_' :: tag.toList).reverse.isPrefixOf stem

/-- What a file declares. Headers for tags declare value lists in all blocks but that of a module; other
files only if they declare a module, because the blocks of a configuration header are comments of
parameters. -/
def declarationsOf (tags : List String) (path text : String) : Except Error Declarations := do
  match Comment.docBlocks text.toList with
  | [] => return ⟨none, .empty⟩
  | first :: others =>
    let block ← (ModuleDefinition.ofBlock first).mapError (.moduleDefinition path)
    let listBlocks :=
      if block.module.isSome then others
      else if isTagHeader tags path then first :: others
      else []
    let lists ← (ValueList.ofBlocks listBlocks).mapError (.enumDefinition path)
    return ⟨block.module, lists⟩

/-- The module that a file defines. It depends on the source files of the same name, unless that is its
own name. -/
def moduleOf (path : String) (d : ModuleDefinition) : Module :=
  let own := (Path.fileStem? path).filter fun stem => stem ≠ d.name && stem ∉ d.depends
  { name := d.name
    depends := d.depends ++ own.toList
    configuration := d.configuration
    category := ((Path.parent? path).bind Path.fileName?).getD ""
    hw := d.hw
    enabled := false
    constants := d.constants
    description := d.description
    supports := d.supports
    harvard := d.harvard
    definedIn := path }

/-- The header at a path below the source root, if there is a file. -/
def readHeader (tree : FileTree) (sourceRoot path : String) : Except Error (Option Header) := do
  let file := Path.join sourceRoot path
  if tree.isFile file then
    let text ← (tree.read file).mapError .io
    some <$> (Header.parse path text).mapError (.configurationDefinition path)
  else return none

/-- The files below a root that match any of some patterns, in the order of paths. Of paths with the
same components, the one that is found last counts. -/
def candidates (index : FileIndex) (tree : FileTree) (patterns : List String) :
    List String × FileIndex :=
  let (found, index) := patterns.foldl (fun (found, index) pattern =>
    let (paths, index) := index.find tree pattern
    (found ++ paths, index)) ([], index)
  (Path.lastOfEach (found.mergeSort Path.le), index)

/-- The catalogue of a source tree, and the index of its files. `tags` tell which headers declare value
lists without a module. -/
def load (settings : Settings) (tags : List String) (tree : FileTree) (sourceRoot : String) :
    Except Error (Catalog × FileIndex) := do
  if !tree.isDirectory sourceRoot then throw (.missingSourceRoot sourceRoot)
  let index := FileIndex.new sourceRoot settings.excluded
  let (paths, index) := candidates index tree settings.included
  let declared ← paths.mapM fun path => do
    let text ← (tree.read (Path.join sourceRoot path)).mapError .io
    return (path, ← declarationsOf tags path text)
  let modules := declared.filterMap fun (path, d) => d.module.map (moduleOf path)
  let lists := NameMap.ofList (declared.flatMap fun (_, d) => d.lists.entries)
  let headerPaths := (NameSet.ofList (modules.filterMap (·.configuration))).toList
  let headers ← headerPaths.mapM (readHeader tree sourceRoot)
  return (build sourceRoot modules (headers.filterMap id)
    (lists.entries.map fun (name, values) => ⟨name, values⟩), index)

end Configurator.Catalog
