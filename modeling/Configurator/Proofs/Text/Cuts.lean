import Mathlib.Tactic.ByContra
import Configurator.Text

/-!
# Cuts of texts

What trimming leaves has no blanks at its ends, and trimming leaves alone what has none
(`trim_eq_self`). A mark is found in a text exactly if it stands in it (`contains_eq_true_iff`).
-/

namespace Configurator.Text

/-! ## Trimming -/

theorem not_isInlineBlank_of_not_isBlank {c : Char} (h : isBlank c = false) :
    isInlineBlank c = false := by
  by_contra hblank
  rw [isBlank_of_isInlineBlank (by simpa using hblank)] at h
  cases h

/-- Trimming leaves no blank at either end. -/
theorem not_isBlank_of_trim {cs rest : List Char} {c : Char} :
    (trim cs = c :: rest → isBlank c = false)
      ∧ (trim cs = rest ++ [c] → isBlank c = false) := by
  constructor
  · intro h
    obtain ⟨tail, htail, -⟩ := dropEndWhile_append_exists isBlank (trimStart cs)
    have hfirst := List.head?_dropWhile_not isBlank cs
    have hhead : (cs.dropWhile isBlank).head? = some c := by
      rw [trim, trimEnd] at h
      rw [h] at htail
      rw [← trimStart, htail]
      rfl
    rw [hhead] at hfirst
    simpa using hfirst
  · intro h
    have hlast := List.head?_dropWhile_not isBlank (trimStart cs).reverse
    have hhead : ((trimStart cs).reverse.dropWhile isBlank).head? = some c := by
      rw [trim, trimEnd, dropEndWhile] at h
      rw [← List.reverse_reverse ((trimStart cs).reverse.dropWhile isBlank), h, List.reverse_append]
      rfl
    rw [hhead] at hlast
    simpa using hlast

theorem trim_cons_blank {c : Char} (hc : isBlank c = true) (cs : List Char) :
    trim (c :: cs) = trim cs := by
  rw [trim, trimStart, List.dropWhile_cons_of_pos hc]
  rfl

theorem trimEnd_append_singleton {cs : List Char} {b : Char} (hb : isBlank b = false) :
    trimEnd (cs ++ [b]) = cs ++ [b] := by
  rw [trimEnd, dropEndWhile, List.reverse_append, List.reverse_singleton, List.singleton_append,
    List.dropWhile_cons_of_neg (by simp [hb]), List.reverse_cons, List.reverse_reverse]

/-- Trimming leaves a text alone that neither begins nor ends in a blank. -/
theorem trim_eq_self {cs : List Char} (hfirst : ∀ c rest, cs = c :: rest → isBlank c = false)
    (hlast : ∀ rest c, cs = rest ++ [c] → isBlank c = false) : trim cs = cs := by
  have hstart : trimStart cs = cs := by
    cases cs with
    | nil => rfl
    | cons c rest => exact List.dropWhile_cons_of_neg (by simp [hfirst c rest rfl])
  rw [trim, hstart]
  cases hcs : cs.reverse with
  | nil =>
      rw [List.reverse_eq_nil_iff.1 hcs]
      rfl
  | cons c rest =>
      rw [List.reverse_eq_cons_iff] at hcs
      rw [hcs]
      exact trimEnd_append_singleton (hlast _ _ hcs)

@[simp] theorem trim_trim (cs : List Char) : trim (trim cs) = trim cs :=
  trim_eq_self (fun _ _ => not_isBlank_of_trim.1) fun _ _ => not_isBlank_of_trim.2

/-- A text without blanks at its ends stays so with more behind it that has none. -/
theorem trim_append {cs more : List Char} (h : trim cs = cs) (hmore : ∀ c ∈ more, isBlank c = false) :
    trim (cs ++ more) = cs ++ more := by
  refine trim_eq_self (fun b rest heq => ?_) fun rest b heq => ?_
  · cases cs with
    | nil => exact hmore b (by simp [show more = b :: rest from heq])
    | cons c cs =>
        cases heq
        exact not_isBlank_of_trim.1 h
  · rcases List.eq_nil_or_concat more with rfl | ⟨front, last, rfl⟩
    · rw [List.append_nil] at heq
      exact not_isBlank_of_trim.2 (h.trans heq)
    · rw [List.concat_eq_append, ← List.append_assoc] at heq
      cases (List.append_inj' heq rfl).2
      exact hmore b (by simp)

theorem trim_infix (cs : List Char) : trim cs <:+: cs := by
  obtain ⟨tail, htail, -⟩ := dropEndWhile_append_exists isBlank (trimStart cs)
  have hprefix : trim cs <+: trimStart cs := ⟨tail, htail.symm⟩
  exact hprefix.isInfix.trans (List.dropWhile_suffix isBlank).isInfix

/-! ## Marks -/

/-- A mark at the beginning is found there. -/
theorem splitAtFirst?_append {mark : List Char} (hne : mark ≠ []) (after : List Char) :
    splitAtFirst? mark (mark ++ after) = some ([], after) := by
  obtain ⟨m, mark, rfl⟩ := List.exists_cons_of_ne_nil hne
  have hmark : dropPrefix? (m :: mark) (m :: (mark ++ after)) = some after :=
    dropPrefix?_eq_some_iff.2 rfl
  rw [List.cons_append, splitAtFirst?, hmark]

theorem contains_eq_true_iff {mark cs : List Char} : contains mark cs = true ↔ mark <:+: cs := by
  constructor
  · intro h
    obtain ⟨⟨before, after⟩, hsplit⟩ := Option.isSome_iff_exists.1 h
    exact ⟨before, after, (splitAtFirst?_eq_some hsplit).symm⟩
  · rintro ⟨before, after, rfl⟩
    induction before with
    | nil =>
        rw [List.nil_append]
        cases mark with
        | nil =>
            cases after with
            | nil => rfl
            | cons c after => simp [contains, splitAtFirst?, dropPrefix?]
        | cons m mark =>
            have hmark : dropPrefix? (m :: mark) (m :: (mark ++ after)) = some after :=
              dropPrefix?_eq_some_iff.2 rfl
            rw [List.cons_append, contains, splitAtFirst?, hmark]
            rfl
    | cons c before ih =>
        rw [List.cons_append, List.cons_append, contains, splitAtFirst?]
        split
        · rfl
        · rw [Option.isSome_map]
          exact ih

end Configurator.Text
