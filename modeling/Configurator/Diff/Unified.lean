import Configurator.Diff.Shortest
import Configurator.Diff.Slide
import Configurator.Text
import Configurator.Text.Integer

/-!
# Unified diffs

The difference of two texts, line by line, as people read it: changes stand in hunks together with some
lines around them, each line behind a sign that tells whether it is kept, deleted or inserted.
-/

namespace Configurator.Diff

/-- The lines of a text, each with its end: a line feed, a carriage return, or both together. -/
def linesWithEnds : List Char → List (List Char)
  | [] => []
  | '\n' :: cs => ['\n'] :: linesWithEnds cs
  | '\r' :: '\n' :: cs => ['\r', '\n'] :: linesWithEnds cs
  | '\r' :: cs => ['\r'] :: linesWithEnds cs
  | c :: cs =>
    match linesWithEnds cs with
    | line :: rest => (c :: line) :: rest
    | [] => [[c]]

/-! ## Changes -/

/-- The deletions and insertions between kept items as one edit each. -/
def mergeChanges : List Edit → List Edit
  | [] => []
  | e :: es =>
    match mergeChanges es with
    | [] => [e]
    | f :: fs =>
      match e.kind, f.kind with
      | .keep, .keep => e.absorb f :: fs
      | .delete, .delete => e.absorb f :: fs
      | .insert, .insert => e.absorb f :: fs
      | .delete, .insert => ⟨.replace, e.oldStart, e.oldSize, f.newStart, f.newSize⟩ :: fs
      | .insert, .delete => ⟨.replace, f.oldStart, f.oldSize, e.newStart, e.newSize⟩ :: fs
      | .delete, .replace =>
        { f with oldStart := e.oldStart, oldSize := e.oldSize + f.oldSize } :: fs
      | .insert, .replace =>
        { f with newStart := e.newStart, newSize := e.newSize + f.newSize } :: fs
      | _, _ => e :: f :: fs

/-- The edits that lead from some lines to others. -/
def edits (old new : Array (List Char)) : List Edit :=
  mergeChanges (settle old new (script old new ⟨0, old.size, 0, new.size⟩))

/-! ## Hunks -/

/-- How many kept lines stand around a change. -/
def context : Nat := 3

/-- The last lines of what is kept. -/
def lastKept (e : Edit) : Edit :=
  let n := min e.oldSize context
  Edit.keep (e.oldStop - n) (e.newStop - n) n

/-- The first lines of what is kept. -/
def firstKept (e : Edit) : Edit :=
  Edit.keep e.oldStart e.newStart (min e.oldSize context)

/-- Divides edits into hunks where more is kept than the surroundings of two changes. `hunk` is what
belongs to the present hunk so far. -/
def divide (hunk : List Edit) : List Edit → List (List Edit)
  | [] => if hunk.all (·.isKept) then [] else [hunk]
  | e :: es =>
    if e.isKept && 2 * context < e.oldSize then
      (hunk ++ [firstKept e]) :: divide [lastKept e] es
    else divide (hunk ++ [e]) es

/-- The edits with only the end of what is kept in front of the first change. -/
def trimStart : List Edit → List Edit
  | [] => []
  | e :: es => if e.isKept then lastKept e :: es else e :: es

/-- The edits with only the beginning of what is kept behind the last change. -/
def trimEnd (es : List Edit) : List Edit :=
  match es.getLast? with
  | some e => if e.isKept then es.dropLast ++ [firstKept e] else es
  | none => []

/-- The hunks of some edits. -/
def hunks (es : List Edit) : List (List Edit) :=
  divide [] (trimEnd (trimStart es))

/-! ## Text -/

/-- Lines behind a sign. A last line that is not ended is followed by a remark. -/
def signed (sign : Char) (lines : List (List Char)) : List Char :=
  lines.flatMap fun line =>
    let ended := line.getLast?.any fun c => c == '\n' || c == '\r'
    sign :: line ++ if ended then [] else "\n\\ No newline at end of file\n".toList

def slice (lines : Array (List Char)) (start stop : Nat) : List (List Char) :=
  (lines.extract start stop).toList

/-- The lines of an edit. -/
def editText (old new : Array (List Char)) (e : Edit) : List Char :=
  let before := slice old e.oldStart e.oldStop
  let after := slice new e.newStart e.newStop
  match e.kind with
  | .keep => signed ' ' before
  | .delete => signed '-' before
  | .insert => signed '+' after
  | .replace => signed '-' before ++ signed '+' after

/-- Where lines stand: the number of the first one, and how many there are unless it is one. If there
are none, the number is that of the line before. -/
def rangeText (start stop : Nat) : List Char :=
  let size := stop - start
  if size = 1 then Text.Integer.digits (start + 1)
  else Text.Integer.digits (if size = 0 then start else start + 1) ++ ',' :: Text.Integer.digits size

def hunkText (old new : Array (List Char)) (hunk : List Edit) : List Char :=
  match hunk.head?, hunk.getLast? with
  | some first, some last =>
    "@@ -".toList ++ rangeText first.oldStart last.oldStop ++ " +".toList
      ++ rangeText first.newStart last.newStop ++ " @@\n".toList
      ++ hunk.flatMap (editText old new)
  | _, _ => []

/-- The difference of two texts under their names. There is none if the texts are equal. -/
def unified (oldName newName old new : String) : String :=
  let old := (linesWithEnds old.toList).toArray
  let new := (linesWithEnds new.toList).toArray
  match hunks (edits old new) with
  | [] => ""
  | hunks =>
    "--- " ++ oldName ++ "\n+++ " ++ newName ++ "\n"
      ++ String.ofList (hunks.flatMap (hunkText old new))

end Configurator.Diff
