import Configurator.Diff.Basic

/-!
# Sliding edits

Where an insertion stands next to equal lines that are kept, it can slide over them without changing
what the edits do. Each deletion and then each insertion moves up as far as it goes and then down as far
as it goes, over changes of the other kind and, if it is an insertion, over kept items, and takes in the
changes of its own kind that it meets.
-/

namespace Configurator.Diff

/-- Edits with one of them at hand; those before it are listed backwards. -/
structure Focus where
  before : List Edit
  this : Edit
  behind : List Edit
  deriving DecidableEq, Inhabited, Repr

/-- How far the edits of a list reach. -/
def reach : List Edit → Nat
  | [] => 0
  | e :: es => e.oldSize + e.newSize + 1 + reach es

/-- An edit in front of others, unless it has become empty. -/
def consUnlessEmpty (e : Edit) (es : List Edit) : List Edit :=
  if e.isEmpty then es else e :: es

/-- Kept items come back at the beginning of a list of edits. -/
def giveBack (kept : Edit) : List Edit → List Edit
  | e :: es =>
    if e.kind = .keep then (e.moveUp kept.oldSize).grow kept.oldSize :: es else kept :: e :: es
  | [] => [kept]

/-- Kept items come to the end of a list of edits that is listed backwards. -/
def handOver (kept : Edit) : List Edit → List Edit
  | e :: es => if e.kind = .keep then e.grow kept.oldSize :: es else kept :: e :: es
  | [] => [kept]

section Slide

variable {α : Type} [DecidableEq α] (old new : Array α)

/-- Moves the edit at hand up. -/
def slideUp (before : List Edit) (this : Edit) (behind : List Edit) : Focus :=
  match before with
  | [] => ⟨[], this, behind⟩
  | e :: es =>
    if this.kind = e.kind then slideUp es (e.absorb this) behind
    else if e.kind ≠ .keep then slideUp es this (e :: behind)
    else if this.kind ≠ .insert then ⟨e :: es, this, behind⟩
    else
      let n := commonSuffix old new e.oldStart e.oldStop this.newStart this.newStop
      if _h : n = 0 then ⟨e :: es, this, behind⟩
      else
        let kept := Edit.keep (e.oldStop - n) (this.newStop - n) n
        slideUp (consUnlessEmpty (e.shrink n) es) (this.moveUp n) (giveBack kept behind)
termination_by reach before
decreasing_by
  · simp only [reach]; omega
  · simp only [reach]; omega
  · have hle := commonSuffix_le old new e.oldStart e.oldStop this.newStart this.newStop
    rw [e.oldStop_sub_oldStart] at hle
    unfold consUnlessEmpty
    split
    · simp only [reach]; omega
    · simp only [reach, Edit.shrink]; omega

/-- Moves the edit at hand down. -/
def slideDown (before : List Edit) (this : Edit) (behind : List Edit) : Focus :=
  match behind with
  | [] => ⟨before, this, []⟩
  | e :: es =>
    if this.kind = e.kind then slideDown before (this.absorb e) es
    else if e.kind ≠ .keep then slideDown (e :: before) this es
    else if this.kind ≠ .insert then ⟨before, this, e :: es⟩
    else
      let n := commonPrefix old new e.oldStart e.oldStop this.newStart this.newStop
      if _h : n = 0 then ⟨before, this, e :: es⟩
      else
        let kept := Edit.keep e.oldStart this.newStart n
        slideDown (handOver kept before) (this.moveDown n)
          (consUnlessEmpty ((e.moveDown n).shrink n) es)
termination_by reach behind
decreasing_by
  · simp only [reach]; omega
  · simp only [reach]; omega
  · have hle := commonPrefix_le old new e.oldStart e.oldStop this.newStart this.newStop
    rw [e.oldStop_sub_oldStart] at hle
    unfold consUnlessEmpty
    split
    · simp only [reach]; omega
    · simp only [reach, Edit.shrink, Edit.moveDown]; omega

/-- How many edits of a list are of a kind. -/
def countKind (kind : Edit.Kind) (es : List Edit) : Nat :=
  es.countP (·.kind = kind)

theorem countKind_giveBack {kind : Edit.Kind} {kept : Edit} (hkept : kept.kind ≠ kind)
    (es : List Edit) : countKind kind (giveBack kept es) = countKind kind es := by
  unfold giveBack countKind
  split
  · split
    · simp [List.countP_cons, Edit.moveUp, Edit.grow]
    · simp [List.countP_cons, hkept]
  · simp [hkept]

theorem countKind_slideUp_le (before : List Edit) (this : Edit) (behind : List Edit) :
    countKind this.kind (slideUp old new before this behind).behind
      ≤ countKind this.kind behind := by
  fun_induction slideUp old new before this behind with
  | case1 => exact Nat.le_refl _
  | case2 this behind e es hkind ih =>
    rw [hkind]
    exact ih
  | case3 this behind e es hkind _ ih =>
    refine Nat.le_trans ih ?_
    simp [countKind, Ne.symm hkind]
  | case4 => exact Nat.le_refl _
  | case5 => exact Nat.le_refl _
  | case6 this behind e es _ _ hins n _ kept ih =>
    have hne : kept.kind ≠ this.kind := by
      simp only [ne_eq, Decidable.not_not] at hins
      simp [kept, Edit.keep, hins]
    simpa [Edit.moveUp, countKind_giveBack hne] using ih

theorem countKind_slideDown_le (before : List Edit) (this : Edit) (behind : List Edit) :
    countKind this.kind (slideDown old new before this behind).behind
      ≤ countKind this.kind behind := by
  fun_induction slideDown old new before this behind with
  | case1 => exact Nat.le_refl _
  | case2 before this e es hkind ih =>
    refine Nat.le_trans (by simpa [Edit.absorb] using ih) ?_
    simp [countKind, List.countP_cons]
  | case3 before this e es _ _ ih =>
    refine Nat.le_trans ih ?_
    simp [countKind, List.countP_cons]
  | case4 => exact Nat.le_refl _
  | case5 => exact Nat.le_refl _
  | case6 before this e es _ _ hins n _ kept ih =>
    refine Nat.le_trans (by simpa [Edit.moveDown] using ih) ?_
    unfold consUnlessEmpty
    split <;> simp [countKind, List.countP_cons, Edit.shrink]

theorem kind_slideUp (before : List Edit) (this : Edit) (behind : List Edit) :
    (slideUp old new before this behind).this.kind = this.kind := by
  fun_induction slideUp old new before this behind with
  | case1 => rfl
  | case2 this behind e es hkind ih => exact ih.trans hkind.symm
  | case3 _ _ _ _ _ _ ih => exact ih
  | case4 => rfl
  | case5 => rfl
  | case6 _ _ _ _ _ _ _ _ _ _ ih => exact ih

/-- Slides the edits of one kind, one after the other. Those before the ones that are left to do are
listed backwards. -/
def slideAll (kind : Edit.Kind) (before : List Edit) : List Edit → List Edit
  | [] => before.reverse
  | e :: es =>
    if _h : e.kind = kind then
      let up := slideUp old new before e es
      let down := slideDown old new up.before up.this up.behind
      slideAll kind (down.this :: down.before) down.behind
    else slideAll kind (e :: before) es
termination_by es => (countKind kind es, es.length)
decreasing_by
  · refine Prod.Lex.left _ _ ?_
    subst kind
    have hup := countKind_slideUp_le old new before e es
    have hdown := countKind_slideDown_le old new up.before up.this up.behind
    simp only [up, kind_slideUp] at hdown
    have hcons : countKind e.kind (e :: es) = countKind e.kind es + 1 := by simp [countKind]
    omega
  · have hcons : countKind kind (e :: es) = countKind kind es := by simp [countKind, ‹e.kind ≠ kind›]
    rw [hcons]
    exact Prod.Lex.right _ (Nat.lt_succ_self _)

/-- The edits in a settled form: deletions and then insertions slide as far as they go. -/
def settle (es : List Edit) : List Edit :=
  slideAll old new .insert [] (slideAll old new .delete [] es)

end Slide

end Configurator.Diff
