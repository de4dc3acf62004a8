import Configurator.Command.Places
import Configurator.Command.Run
import Std.Time.DateTime.Timestamp

/-!
# The program

What a command line can reach is read from the disk, the command runs on that, and what it has changed
is written back.
-/

namespace Configurator.Main

/-! ## Reading the disk -/

/-- The bytes of a file as its content. -/
def contentOf (bytes : ByteArray) : FileTree.Content :=
  match String.fromUTF8? bytes with
  | some text => .text text
  | none => .binary bytes.toList

/-- Adds a file to a tree, or a directory with all that is in it. What cannot be read is not there. -/
partial def add (tree : FileTree) (path : String) : IO FileTree := do
  try
    let place ← IO.FS.realPath path
    if ← place.isDir then
      let tree := (tree.makeDirectories path).2
      let entries ← place.readDir
      entries.foldlM (fun tree entry => add tree (Path.join path entry.fileName)) tree
    else
      let content := contentOf (← IO.FS.readBinFile place)
      return (tree.write path content).toOption.getD tree
  catch _ => return tree

/-- Adds what a path leads to, and the directory that it is in. -/
def addPlace (tree : FileTree) (path : String) : IO FileTree := do
  let parent := (Path.parent? path).getD ""
  let above ← try (← IO.FS.realPath (if parent = "" then "." else parent)).isDir catch _ => pure false
  add (if above then (tree.makeDirectories parent).2 else tree) path

/-- The working directory, and nothing else. -/
def workingTree : IO FileTree := do
  let dir := toString (← IO.currentDir)
  let root : FileTree := ⟨.empty, []⟩
  return { (root.makeDirectories dir).2 with
    workingDir := (FileTree.partsOf dir).filter (· ≠ "") }

/-- All that a command line can reach. -/
def reachable (i : Command.Invocation) : IO FileTree := do
  let tree ← i.places.foldlM addPlace (← workingTree)
  (i.placesWithin tree).foldlM addPlace tree

/-! ## Writing it -/

/-- Writes what is not as it was before. -/
def writeBack (before after : FileTree) : IO Unit :=
  after.entries.entries.forM fun (path, entry) =>
    if before.entries.get? path = some entry then pure ()
    else
      match entry with
      | .directory => IO.FS.createDirAll path
      | .file (.text text) => IO.FS.writeFile path text
      | .file (.binary bytes) => IO.FS.writeBinFile path ⟨bytes.toArray⟩

/-! ## Running -/

def now : IO Instant := do
  let nanoseconds := (← Std.Time.Timestamp.now).toNanosecondsSinceUnixEpoch.val
  return ⟨nanoseconds.fdiv 1000000000, (nanoseconds.fmod 1000000000).toNat⟩

end Configurator.Main

open Configurator in
def main (words : List String) : IO UInt32 := do
  let projectVariable ← IO.getEnv "MODFORGE_PROJECT"
  let before ← match Command.Invocation.read projectVariable words with
    | .ok i => Main.reachable i
    | .error _ => Main.workingTree
  let outcome := Command.run projectVariable (← Main.now) words before
  Main.writeBack before outcome.tree
  IO.print outcome.stdout
  IO.eprint outcome.stderr
  return outcome.code.toUInt32
