import Mathlib.Data.List.Infix
import Configurator.Proofs.Text.Cuts
import Configurator.Text.Replace

/-!
# What replacing a mark does

Replacing goes over a text from one occurrence of the mark to the next, and copies what lies between
them. `replace_induction` is induction along this way; every other fact is proved by it. Two facts say
that what is far from any occurrence does not matter: a character that is not in the mark cuts the text
into two parts that are replaced on their own (`replace_append_cons`), and a stretch without the first
character of the mark is copied (`replace_append_of_not_mem`).
-/

namespace Configurator.Text

variable {mark value : List Char}

/-! ## Going over a text -/

theorem replaceFrom_append (skipped rest : List Char) :
    replaceFrom mark value skipped.length (skipped ++ rest) = replaceFrom mark value 0 rest := by
  induction skipped with
  | nil => rfl
  | cons c skipped ih => exact ih

theorem replace_eq_replaceFrom (hne : mark ≠ []) (cs : List Char) :
    replace mark value cs = replaceFrom mark value 0 cs :=
  if_neg hne

@[simp] theorem replace_nil (hne : mark ≠ []) : replace mark value [] = [] :=
  replace_eq_replaceFrom hne []

/-- A mark is replaced where it stands. -/
theorem replace_mark_append (hne : mark ≠ []) (rest : List Char) :
    replace mark value (mark ++ rest) = value ++ replace mark value rest := by
  rw [replace_eq_replaceFrom hne, replace_eq_replaceFrom hne]
  obtain ⟨m, tail, rfl⟩ := List.exists_cons_of_ne_nil hne
  have hstands : (m :: tail).isPrefixOf (m :: (tail ++ rest)) = true :=
    List.isPrefixOf_iff_prefix.2 (List.prefix_append (m :: tail) rest)
  rw [List.cons_append, replaceFrom, if_pos hstands, List.length_cons, Nat.add_sub_cancel,
    replaceFrom_append]

/-- Where no mark begins, a character is copied. -/
theorem replace_cons (hne : mark ≠ []) {c : Char} {cs : List Char} (hnot : ¬ mark <+: c :: cs) :
    replace mark value (c :: cs) = c :: replace mark value cs := by
  rw [replace_eq_replaceFrom hne, replace_eq_replaceFrom hne, replaceFrom,
    if_neg fun hstands => hnot (List.isPrefixOf_iff_prefix.1 hstands)]

/-- Induction over a text from one occurrence of a mark to the next. -/
theorem replace_induction {P : List Char → Prop} (hne : mark ≠ []) (nil : P [])
    (occurrence : ∀ rest, P rest → P (mark ++ rest))
    (other : ∀ c cs, ¬ mark <+: c :: cs → P cs → P (c :: cs)) (cs : List Char) : P cs := by
  induction hlen : cs.length using Nat.strongRecOn generalizing cs with
  | ind n ih =>
      cases cs with
      | nil => exact nil
      | cons c cs =>
          by_cases hstands : mark <+: c :: cs
          · obtain ⟨rest, hrest⟩ := hstands
            have hpos := List.length_pos_of_ne_nil hne
            have hlen' := congrArg List.length hrest
            rw [List.length_append] at hlen'
            rw [← hrest]
            exact occurrence rest (ih rest.length (by omega) rest rfl)
          · exact other c cs hstands (ih cs.length (by rw [← hlen]; exact Nat.lt_succ_self _) cs rfl)

/-! ## Texts without the mark -/

/-- A text in which the mark does not occur stays. -/
theorem replace_of_absent (hne : mark ≠ []) {cs : List Char} (hnot : ¬ mark <:+: cs) :
    replace mark value cs = cs := by
  induction cs with
  | nil => exact replace_nil hne
  | cons c cs ih =>
      rw [List.infix_cons_iff, not_or] at hnot
      rw [replace_cons hne hnot.1, ih hnot.2]

/-- Neither is a stretch touched in which the mark cannot begin. -/
theorem replace_append_of_not_mem {sign : Char} {cs : List Char} (hcs : sign ∉ cs)
    (rest : List Char) :
    replace (sign :: mark) value (cs ++ rest) = cs ++ replace (sign :: mark) value rest := by
  induction cs with
  | nil => rfl
  | cons c cs ih =>
      rw [List.mem_cons, not_or] at hcs
      have hnot : ¬ sign :: mark <+: c :: (cs ++ rest) := fun hstands =>
        hcs.1 (List.cons_prefix_cons.1 hstands).1
      rw [List.cons_append, replace_cons (List.cons_ne_nil _ _) hnot, ih hcs.2, List.cons_append]

/-! ## Texts in two parts -/

/-- A mark does not reach over a character that it does not have. -/
theorem prefix_of_prefix_append_cons (cs : List Char) {rest : List Char} {c : Char} (hc : c ∉ mark)
    (h : mark <+: cs ++ c :: rest) : mark <+: cs := by
  rcases List.prefix_or_prefix_of_prefix h (List.prefix_append cs _) with hmark | ⟨more, rfl⟩
  · exact hmark
  · cases more with
    | nil => rw [List.append_nil]
    | cons d more =>
        have hd := (List.cons_prefix_cons.1 ((List.prefix_append_right_inj cs).1 h)).1
        exact absurd (by simp [hd]) hc

theorem infix_of_infix_append_cons {cs rest : List Char} {c : Char} (hc : c ∉ mark)
    (h : mark <:+: cs ++ c :: rest) : mark <:+: cs ∨ mark <:+: rest := by
  induction cs with
  | nil =>
      rcases List.infix_cons_iff.1 h with hstands | hrest
      · have hnil := List.prefix_nil.1 (prefix_of_prefix_append_cons [] hc hstands)
        exact .inl (hnil ▸ List.nil_infix)
      · exact .inr hrest
  | cons d cs ih =>
      rcases List.infix_cons_iff.1 h with hstands | hlater
      · exact .inl (prefix_of_prefix_append_cons (d :: cs) hc hstands).isInfix
      · exact (ih hlater).imp_left fun hcs => List.infix_cons hcs

/-- The parts of a text around a character that the mark does not have are replaced on their own. -/
theorem replace_append_cons (hne : mark ≠ []) {c : Char} (hc : c ∉ mark) (cs rest : List Char) :
    replace mark value (cs ++ c :: rest)
      = replace mark value cs ++ c :: replace mark value rest := by
  induction cs using replace_induction hne with
  | nil =>
      have hnot : ¬ mark <+: c :: rest := fun hstands =>
        hne (List.prefix_nil.1 (prefix_of_prefix_append_cons [] hc hstands))
      rw [List.nil_append, replace_cons hne hnot, replace_nil hne, List.nil_append]
  | occurrence cs ih =>
      rw [List.append_assoc, replace_mark_append hne, ih, replace_mark_append hne, List.append_assoc]
  | other d cs hnot ih =>
      have hnot' : ¬ mark <+: d :: (cs ++ c :: rest) := fun hstands =>
        hnot (prefix_of_prefix_append_cons (d :: cs) hc hstands)
      rw [List.cons_append, replace_cons hne hnot', ih, replace_cons hne hnot, List.cons_append]

/-! ## How often a character stands in a text -/

section Count

variable {sign : Char}

/-- What the texts that are put in do not have does not get more. -/
theorem count_replace_le (hne : mark ≠ []) (hvalue : sign ∉ value) (cs : List Char) :
    (replace mark value cs).count sign ≤ cs.count sign := by
  induction cs using replace_induction hne with
  | nil => rw [replace_nil hne]
  | occurrence cs ih =>
      rw [replace_mark_append hne, List.count_append, List.count_append,
        List.count_eq_zero_of_not_mem hvalue]
      omega
  | other c cs hnot ih =>
      rw [replace_cons hne hnot, List.count_cons, List.count_cons]
      omega

/-- Each time that a mark with it is replaced it gets less. -/
theorem count_replace_lt (hmark : sign ∈ mark) (hvalue : sign ∉ value) {cs : List Char}
    (h : mark <:+: cs) : (replace mark value cs).count sign < cs.count sign := by
  have hne : mark ≠ [] := List.ne_nil_of_mem hmark
  induction cs using replace_induction hne with
  | nil => exact absurd (List.infix_nil.1 h) hne
  | occurrence cs _ =>
      have hle := count_replace_le hne hvalue cs
      have hpos := List.count_pos_iff.2 hmark
      rw [replace_mark_append hne, List.count_append, List.count_append,
        List.count_eq_zero_of_not_mem hvalue]
      omega
  | other c cs hnot ih =>
      have hlt := ih ((List.infix_cons_iff.1 h).resolve_left hnot)
      rw [replace_cons hne hnot, List.count_cons, List.count_cons]
      omega

end Count

end Configurator.Text
