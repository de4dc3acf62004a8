/-!
# Edits

The difference of two sequences is a list of edits, which together tell how to come from the old one
to the new one: what is kept, what is deleted, and what is inserted. An edit knows where it stands in
both sequences.
-/

namespace Configurator

inductive Edit.Kind where
  | keep
  | delete
  | insert
  /-- A deletion and an insertion at one place. -/
  | replace
  deriving DecidableEq, Inhabited, Repr

/-- One step from an old sequence to a new one. -/
structure Edit where
  kind : Edit.Kind
  oldStart : Nat
  oldSize : Nat
  newStart : Nat
  newSize : Nat
  deriving DecidableEq, Inhabited, Repr

namespace Edit

def keep (oldStart newStart size : Nat) : Edit :=
  ⟨.keep, oldStart, size, newStart, size⟩

def delete (oldStart size newStart : Nat) : Edit :=
  ⟨.delete, oldStart, size, newStart, 0⟩

def insert (oldStart newStart size : Nat) : Edit :=
  ⟨.insert, oldStart, 0, newStart, size⟩

def oldStop (e : Edit) : Nat :=
  e.oldStart + e.oldSize

def newStop (e : Edit) : Nat :=
  e.newStart + e.newSize

theorem oldStop_sub_oldStart (e : Edit) : e.oldStop - e.oldStart = e.oldSize :=
  Nat.add_sub_cancel_left _ _

def isKept (e : Edit) : Bool :=
  e.kind = .keep

def isEmpty (e : Edit) : Bool :=
  e.oldSize = 0 && e.newSize = 0

/-- The edit with what follows it and is of the same kind. -/
def absorb (e next : Edit) : Edit :=
  { e with oldSize := e.oldSize + next.oldSize, newSize := e.newSize + next.newSize }

/-- The edit at a place that is `n` items earlier in both sequences. -/
def moveUp (e : Edit) (n : Nat) : Edit :=
  { e with oldStart := e.oldStart - n, newStart := e.newStart - n }

/-- The edit at a place that is `n` items later in both sequences. -/
def moveDown (e : Edit) (n : Nat) : Edit :=
  { e with oldStart := e.oldStart + n, newStart := e.newStart + n }

/-- The edit with `n` items more on both sides. -/
def grow (e : Edit) (n : Nat) : Edit :=
  { e with oldSize := e.oldSize + n, newSize := e.newSize + n }

/-- The edit with `n` items less on both sides. -/
def shrink (e : Edit) (n : Nat) : Edit :=
  { e with oldSize := e.oldSize - n, newSize := e.newSize - n }

end Edit

/-! ## Common ends -/

variable {α : Type} [DecidableEq α]

/-- How many items two stretches have in common from their beginning. -/
def commonPrefix (old new : Array α) (oldStart oldStop newStart newStop : Nat) : Nat :=
  if oldStart < oldStop ∧ newStart < newStop ∧ old[oldStart]? = new[newStart]? then
    commonPrefix old new (oldStart + 1) oldStop (newStart + 1) newStop + 1
  else 0
termination_by oldStop - oldStart

/-- How many items two stretches have in common from their end. -/
def commonSuffix (old new : Array α) (oldStart oldStop newStart newStop : Nat) : Nat :=
  if oldStart < oldStop ∧ newStart < newStop ∧ old[oldStop - 1]? = new[newStop - 1]? then
    commonSuffix old new oldStart (oldStop - 1) newStart (newStop - 1) + 1
  else 0
termination_by oldStop - oldStart

theorem commonPrefix_le (old new : Array α) (oldStart oldStop newStart newStop : Nat) :
    commonPrefix old new oldStart oldStop newStart newStop ≤ oldStop - oldStart := by
  fun_induction commonPrefix old new oldStart oldStop newStart newStop <;> omega

theorem commonSuffix_le (old new : Array α) (oldStart oldStop newStart newStop : Nat) :
    commonSuffix old new oldStart oldStop newStart newStop ≤ oldStop - oldStart := by
  fun_induction commonSuffix old new oldStart oldStop newStart newStop <;> omega

end Configurator
