import Configurator.Directive
import Configurator.Proofs.Expr.Evaluated
import Configurator.Proofs.Text.Cuts

/-!
# Directive lines are read back

The line that gives a key a value is read as that one assignment (`assignments_render`), provided that
the key is a name and the value has a literal; whatever a line is read as, both hold of it
(`isName_of_assignments`). Between them the two say that a line which was read can be written anew.
-/

namespace Configurator.Directive

open Configurator.Expr (IsName keywords)
open Text (isBlank trim)

theorem isDirective_iff {line : String} :
    isDirective line = true ↔ marker.toList <:+: line.toList := by
  rw [isDirective, split?, Option.isSome_map, ← Text.contains_eq_true_iff]
  rfl

/-! ## Written lines -/

theorem toList_render (key : String) (value : Value) :
    (render key value).toList
      = marker.toList ++ ' ' :: (key.toList ++ ' ' :: '=' :: ' ' :: value.chars) := by
  simp [render, Value.text]

theorem splitAtFirst?_render (key : String) (value : Value) :
    Text.splitAtFirst? marker.toList (render key value).toList
      = some ([], ' ' :: (key.toList ++ ' ' :: '=' :: ' ' :: value.chars)) := by
  rw [toList_render]
  exact Text.splitAtFirst?_append (by simp [marker]) _

@[simp] theorem isDirective_render (key : String) (value : Value) :
    isDirective (render key value) = true := by
  rw [isDirective_iff, toList_render]
  exact List.prefix_append _ _ |>.isInfix

/-- The text of a value does not end in a blank. -/
theorem exists_chars_eq_concat (v : Value) :
    ∃ front c, v.chars = front ++ [c] ∧ isBlank c = false := by
  have hdigits : ∀ n, ∃ front c, Text.Integer.digits n = front ++ [c] ∧ isBlank c = false := by
    intro n
    have hne := Text.Integer.digits_ne_nil n
    exact ⟨_, _, (List.dropLast_concat_getLast hne).symm, Expr.not_isBlank_of_isDigit
      (Text.Integer.isDigit_of_mem_digits (List.getLast_mem hne))⟩
  match v with
  | .bool true => exact ⟨['T', 'r', 'u'], 'e', by simp [Value.chars], rfl⟩
  | .bool false => exact ⟨['F', 'a', 'l', 's'], 'e', by simp [Value.chars], rfl⟩
  | .int (.ofNat n) => exact hdigits n
  | .int (.negSucc n) =>
      obtain ⟨front, c, h, hc⟩ := hdigits (n + 1)
      exact ⟨'-' :: front, c, congrArg ('-' :: ·) h, hc⟩
  | .str s => exact ⟨'"' :: s.toList.flatMap Value.escape, '"', rfl, rfl⟩
  | .tuple [] => exact ⟨['('], ')', by simp [Value.chars], rfl⟩
  | .tuple [v] => exact ⟨'(' :: v.chars ++ [','], ')', by simp [Value.chars], rfl⟩
  | .tuple (v :: w :: vs) =>
      exact ⟨'(' :: v.chars ++ Value.charsAfter (w :: vs), ')', by simp [Value.chars], rfl⟩

theorem trim_assignment {key : String} (hkey : IsName key) (value : Value) :
    trim (' ' :: (key.toList ++ ' ' :: '=' :: ' ' :: value.chars))
      = key.toList ++ ' ' :: '=' :: ' ' :: value.chars := by
  obtain ⟨c, cs, heq, hblank, -, -⟩ := hkey
  obtain ⟨front, d, hchars, hd⟩ := exists_chars_eq_concat value
  rw [Text.trim_cons_blank rfl]
  refine Text.trim_eq_self (fun b rest h => ?_) fun rest b h => ?_
  · rw [heq] at h
    cases h
    exact hblank
  · have hlast := congrArg List.getLast? h
    rw [hchars, List.getLast?_concat] at hlast
    obtain rfl : d = b := by simpa [List.getLast?_append, List.getLast?_cons] using hlast
    exact hd

/-- A line that gives a name the literal of a value is read so. -/
theorem assignments_render {key : String} (hkey : IsName key) (hkeyword : key ∉ keywords)
    {value : Value} (hvalue : value.HasLiteral) (index : Nat) :
    assignments index (render key value) = .ok [⟨index, render key value, key, value⟩] := by
  simp only [assignments, splitAtFirst?_render, trim_assignment hkey,
    Expr.evalAssignments_literal hkey hkeyword hvalue, List.map_cons, List.map_nil]

/-! ## Lines that were read -/

theorem assignments_of_not_isDirective {line : String} (h : isDirective line = false) (index : Nat) :
    assignments index line = .ok [] := by
  rw [isDirective, split?, Option.isSome_map, Option.isSome_eq_false_iff, Option.isNone_iff_eq_none] at h
  simp only [assignments, h]

theorem isName_of_assignments {index : Nat} {line : String} {found : List Assigned}
    (h : assignments index line = .ok found) :
    ∀ a ∈ found, IsName a.key ∧ a.key ∉ keywords ∧ a.value.HasLiteral := by
  unfold assignments at h
  split at h
  · cases h
    simp
  · split at h
    · next pairs hpairs =>
      cases h
      intro a ha
      obtain ⟨pair, hpair, rfl⟩ := List.mem_map.1 ha
      exact Expr.isName_of_evalAssignments hpairs pair hpair
    · cases h

end Configurator.Directive
