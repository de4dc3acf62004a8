import Configurator.Diff.Basic

/-!
# Short edit scripts

A shortest way from one sequence to another is found by looking for its middle from both ends at once.
A position is a pair of an old and a new index, and a diagonal holds the positions with one difference
of the two. For each number of edits the search keeps how far it gets on each diagonal, forwards and
backwards, until the two sides meet; what lies before and behind that position is solved in the same
way.
-/

namespace Configurator.Diff

/-- How far a search has got on each diagonal, counted in items of the old sequence. -/
structure Frontier where
  /-- The number of diagonals on either side of the middle one. -/
  width : Nat
  reach : Array Nat
  deriving Inhabited

namespace Frontier

def new (width : Nat) : Frontier :=
  ⟨width, Array.replicate (2 * width + 1) 0⟩

def get (f : Frontier) (diagonal : Int) : Nat :=
  f.reach.getD (diagonal + f.width).toNat 0

def set (f : Frontier) (diagonal : Int) (x : Nat) : Frontier :=
  { f with reach := f.reach.setIfInBounds (diagonal + f.width).toNat x }

/-- Where a search with one edit more arrives on a diagonal, from the better one of its neighbours. -/
def step (f : Frontier) (edits : Nat) (diagonal : Int) : Nat :=
  let below := f.get (diagonal - 1)
  let above := f.get (diagonal + 1)
  if diagonal = -edits ∨ (diagonal ≠ edits ∧ below < above) then above else below + 1

end Frontier

/-- A part of the old and of the new sequence. -/
structure Window where
  oldStart : Nat
  oldStop : Nat
  newStart : Nat
  newStop : Nat
  deriving DecidableEq, Inhabited, Repr

namespace Window

def oldSize (w : Window) : Nat :=
  w.oldStop - w.oldStart

def newSize (w : Window) : Nat :=
  w.newStop - w.newStart

def size (w : Window) : Nat :=
  w.oldSize + w.newSize

/-- The difference of the sizes. Only if it is odd the two sides can meet in a forward step. -/
def delta (w : Window) : Int :=
  w.oldSize - w.newSize

/-- The window without some items at its beginning and at its end. -/
def trim (w : Window) (start stop : Nat) : Window :=
  ⟨w.oldStart + start, w.oldStop - stop, w.newStart + start, w.newStop - stop⟩

end Window

section Search

variable {α : Type} [DecidableEq α] (old new : Array α) (w : Window)

/-- The diagonals that are reached with a number of edits, from the highest one down. -/
def diagonals (edits : Nat) : List Int :=
  (List.range (edits + 1)).map fun (i : Nat) => (edits : Int) - 2 * (i : Int)

/-- The frontiers of the forward and the backward search. -/
abbrev Sides := Frontier × Frontier

/-- A forward step on one diagonal, which ends the search if it meets the backward side. -/
def forwardStep (edits : Nat) (sides : Sides) (diagonal : Int) : Except (Nat × Nat) Sides :=
  let (forward, backward) := sides
  let x := forward.step edits diagonal
  let y := ((x : Int) - diagonal).toNat
  let ahead := commonPrefix old new (w.oldStart + x) w.oldStop (w.newStart + y) w.newStop
  let forward := forward.set diagonal (x + ahead)
  let across := diagonal - w.delta
  if w.delta % 2 = 1 ∧ across.natAbs < edits ∧ w.oldSize ≤ x + ahead + backward.get (-across) then
    .error (w.oldStart + x, w.newStart + y)
  else .ok (forward, backward)

/-- A backward step on one diagonal, which ends the search if it meets the forward side. -/
def backwardStep (edits : Nat) (sides : Sides) (diagonal : Int) : Except (Nat × Nat) Sides :=
  let (forward, backward) := sides
  let x := backward.step edits diagonal
  let y := ((x : Int) - diagonal).toNat
  let ahead := commonSuffix old new w.oldStart (w.oldStop - x) w.newStart (w.newStop - y)
  let backward := backward.set diagonal (x + ahead)
  let across := diagonal - w.delta
  if w.delta % 2 = 0 ∧ across.natAbs ≤ edits ∧ w.oldSize ≤ x + ahead + forward.get (-across) then
    .error (w.oldStop - (x + ahead), w.newStop - (y + ahead))
  else .ok (forward, backward)

/-- The steps of both sides with a number of edits. -/
def round (sides : Sides) (edits : Nat) : Except (Nat × Nat) Sides := do
  let sides ← (diagonals edits).foldlM (forwardStep old new w edits) sides
  (diagonals edits).foldlM (backwardStep old new w edits) sides

/-- The number of edits, on each side, with which the sides have met. -/
def maxEdits : Nat :=
  (w.size + 1) / 2 + 1

/-- A position where a shortest way can be divided. -/
def middle? : Option (Nat × Nat) :=
  let start := Frontier.new (maxEdits w)
  match (List.range (maxEdits w)).foldlM (round old new w) (start, start) with
  | .error position => some position
  | .ok _ => none

end Search

/-- The edits of a window. What it has in common at its ends is kept, and the rest is divided if that
makes it smaller. -/
def script {α : Type} [DecidableEq α] (old new : Array α) (w : Window) : List Edit :=
  let start := commonPrefix old new w.oldStart w.oldStop w.newStart w.newStop
  let stop := commonSuffix old new (w.oldStart + start) w.oldStop (w.newStart + start) w.newStop
  let inner := w.trim start stop
  let changes :=
    if inner.newSize = 0 ∧ inner.oldSize = 0 then []
    else if inner.newSize = 0 then [.delete inner.oldStart inner.oldSize inner.newStart]
    else if inner.oldSize = 0 then [.insert inner.oldStart inner.newStart inner.newSize]
    else
      let apart := [.delete inner.oldStart inner.oldSize inner.newStart,
        .insert inner.oldStart inner.newStart inner.newSize]
      match middle? old new inner with
      | none => apart
      | some (x, y) =>
        let before : Window := ⟨inner.oldStart, x, inner.newStart, y⟩
        let behind : Window := ⟨x, inner.oldStop, y, inner.newStop⟩
        if _h : before.size < w.size ∧ behind.size < w.size then
          script old new before ++ script old new behind
        else apart
  (if start = 0 then [] else [.keep w.oldStart w.newStart start]) ++ changes
    ++ if stop = 0 then [] else [.keep inner.oldStop inner.newStop stop]
termination_by w.size
decreasing_by
  · exact ‹_ ∧ _›.1
  · exact ‹_ ∧ _›.2

end Configurator.Diff
