import Mathlib.Logic.Function.Iterate
import Configurator.Proofs.Text.Replacement
import Configurator.Template.Tokens

/-!
# How many passes a text needs

Putting the text of a token in its place can complete another token: with `$a` standing for `a`, each
pass takes one sign off `$$$a`. So a text may need several passes until no token is left in it, and
there is a limit on how many it gets. All passes together are one step repeated
(`toList_substitute`), and each time that a token is there, the step takes a sign away
(`count_onePass_lt`).

Replacing in one part of a text has nothing to do with other parts: a character that is in no token
cuts a text into two which are gone over on their own. So a text needs no more passes than the signs
that one stretch of characters of tokens holds (`tokenFree_iterate_of_signsAtMost`).
-/

namespace Configurator.TokenTable

open Text

/-! ## One pass -/

/-- Replaces each token in turn. -/
def replaceEach (tokens : List (String × String)) (cs : List Char) : List Char :=
  tokens.foldl (fun cs e => replace e.1.toList e.2.toList cs) cs

/-- A pass replaces each token in turn, and says whether any of them was there at its start. -/
theorem pass_eq {tokens : List (String × String)} (hne : ∀ e ∈ tokens, e.1.toList ≠ [])
    (cs : List Char) :
    pass cs tokens = (tokens.any fun e => contains e.1.toList cs, replaceEach tokens cs) := by
  induction tokens generalizing cs with
  | nil => rfl
  | cons e tokens ih =>
      obtain ⟨hhead, htail⟩ := List.forall_mem_cons.1 hne
      rw [pass, List.any_cons, replaceEach, List.foldl_cons]
      cases hin : contains e.1.toList cs with
      | true =>
          rw [if_pos rfl, ih htail]
          rfl
      | false =>
          have hnot : ¬ e.1.toList <:+: cs := fun h => by
            rw [contains_eq_true_iff.2 h] at hin
            cases hin
          rw [if_neg Bool.false_ne_true, replace_of_absent hhead hnot, ih htail]
          rfl

variable {t : TokenTable} {cs : List Char}

/-- The text after one pass. -/
def onePass (t : TokenTable) (cs : List Char) : List Char :=
  replaceEach t.ordered cs

/-- Whether no token of the table stands in a text. -/
def TokenFree (t : TokenTable) (cs : List Char) : Prop :=
  ∀ e ∈ t.tokens.entries, ¬ e.1.toList <:+: cs

/-- Whether each token is a sign with something behind it, and no text that is put in has a sign. -/
structure SignLed (t : TokenTable) : Prop where
  token : ∀ e ∈ t.tokens.entries, ∃ c rest, e.1.toList = '$' :: c :: rest
  value : ∀ e ∈ t.tokens.entries, '$' ∉ e.2.toList

theorem mem_ordered {e : String × String} : e ∈ t.ordered ↔ e ∈ t.tokens.entries :=
  List.mem_mergeSort

theorem SignLed.ne_nil (ht : t.SignLed) : ∀ e ∈ t.ordered, e.1.toList ≠ [] := by
  intro e he
  obtain ⟨c, rest, htoken⟩ := ht.token e (mem_ordered.1 he)
  exact htoken ▸ List.cons_ne_nil _ _

/-- A text without tokens stays. -/
theorem replaceEach_of_absent {tokens : List (String × String)}
    (hne : ∀ e ∈ tokens, e.1.toList ≠ []) (hnot : ∀ e ∈ tokens, ¬ e.1.toList <:+: cs) :
    replaceEach tokens cs = cs := by
  induction tokens with
  | nil => rfl
  | cons e tokens ih =>
      obtain ⟨hhead, htail⟩ := List.forall_mem_cons.1 hne
      obtain ⟨hfirst, hothers⟩ := List.forall_mem_cons.1 hnot
      rw [replaceEach, List.foldl_cons, replace_of_absent hhead hfirst]
      exact ih htail hothers

theorem onePass_of_tokenFree (ht : t.SignLed) (hfree : t.TokenFree cs) : t.onePass cs = cs :=
  replaceEach_of_absent ht.ne_nil fun e he => hfree e (mem_ordered.1 he)

theorem pass_ordered (ht : t.SignLed) (cs : List Char) :
    (pass cs t.ordered).2 = t.onePass cs
      ∧ ((pass cs t.ordered).1 = false ↔ t.TokenFree cs) := by
  rw [pass_eq ht.ne_nil]
  refine ⟨rfl, ?_⟩
  simp only [List.any_eq_false, mem_ordered, contains_eq_true_iff, TokenFree]

/-! ## All passes -/

/-- Passes are made as often as is allowed; where no token is left, one more changes nothing. -/
theorem settle_eq_iterate (ht : t.SignLed) (passes : Nat) (cs : List Char) :
    settle t.ordered passes cs = t.onePass^[passes] cs := by
  induction passes generalizing cs with
  | zero => rfl
  | succ passes ih =>
      obtain ⟨hnext, hfree⟩ := pass_ordered ht cs
      rw [settle]
      split
      · next ds hpass =>
        rw [hpass] at hnext
        rw [ih, Function.iterate_succ_apply, ← hnext]
      · next ds hpass =>
        rw [hpass] at hnext hfree
        have hstays := onePass_of_tokenFree ht (hfree.1 rfl)
        rw [Function.iterate_fixed hstays, ← hstays, ← hnext]

theorem toList_substitute (ht : t.SignLed) (text : String) :
    (t.substitute text).toList = t.onePass^[maxPasses] text.toList := by
  rw [substitute, String.toList_ofList, settle_eq_iterate ht]

/-! ## Signs -/

theorem count_replaceEach_le {tokens : List (String × String)}
    (hne : ∀ e ∈ tokens, e.1.toList ≠ []) (hvalue : ∀ e ∈ tokens, '$' ∉ e.2.toList)
    (cs : List Char) : (replaceEach tokens cs).count '$' ≤ cs.count '$' := by
  induction tokens generalizing cs with
  | nil => exact Nat.le_refl _
  | cons e tokens ih =>
      obtain ⟨hhead, htail⟩ := List.forall_mem_cons.1 hne
      obtain ⟨hfirst, hothers⟩ := List.forall_mem_cons.1 hvalue
      exact (ih htail hothers _).trans (count_replace_le hhead hfirst cs)

/-- The first token that is there takes a sign away. -/
theorem count_replaceEach_lt {tokens : List (String × String)}
    (htoken : ∀ e ∈ tokens, '$' ∈ e.1.toList) (hvalue : ∀ e ∈ tokens, '$' ∉ e.2.toList)
    (hin : ∃ e ∈ tokens, e.1.toList <:+: cs) :
    (replaceEach tokens cs).count '$' < cs.count '$' := by
  induction tokens with
  | nil => simp at hin
  | cons e tokens ih =>
      obtain ⟨hhead, htail⟩ := List.forall_mem_cons.1 htoken
      obtain ⟨hfirst, hothers⟩ := List.forall_mem_cons.1 hvalue
      rw [replaceEach, List.foldl_cons]
      by_cases hthere : e.1.toList <:+: cs
      · have hne : ∀ x ∈ tokens, x.1.toList ≠ [] := fun x hx => List.ne_nil_of_mem (htail x hx)
        exact (count_replaceEach_le hne hothers _).trans_lt (count_replace_lt hhead hfirst hthere)
      · rw [replace_of_absent (List.ne_nil_of_mem hhead) hthere]
        exact ih htail hothers (((List.exists_mem_cons_iff ..).1 hin).resolve_left hthere)

theorem count_onePass_lt (ht : t.SignLed) (hnot : ¬ t.TokenFree cs) :
    (t.onePass cs).count '$' < cs.count '$' := by
  refine count_replaceEach_lt (fun e he => ?_) (fun e he => ht.value e (mem_ordered.1 he)) ?_
  · obtain ⟨c, rest, htoken⟩ := ht.token e (mem_ordered.1 he)
    exact htoken ▸ List.mem_cons_self
  · simpa only [TokenFree, not_forall, not_not, mem_ordered, exists_prop] using hnot

/-- With as many passes as a text has signs, no token is left. -/
theorem tokenFree_iterate_of_count_le (ht : t.SignLed) {n : Nat} (hn : cs.count '$' ≤ n) :
    t.TokenFree (t.onePass^[n] cs) := by
  induction n generalizing cs with
  | zero =>
      intro e he hin
      obtain ⟨c, rest, htoken⟩ := ht.token e he
      rw [htoken] at hin
      exact List.count_eq_zero.1 (Nat.le_zero.1 hn) (hin.subset List.mem_cons_self)
  | succ n ih =>
      by_cases hfree : t.TokenFree cs
      · rwa [Function.iterate_fixed (onePass_of_tokenFree ht hfree)]
      · have hlt := count_onePass_lt ht hfree
        exact ih (by omega)

/-! ## Stretches -/

/-- Whether a character stands in some token. -/
def IsTokenChar (t : TokenTable) (c : Char) : Prop :=
  ∃ e ∈ t.tokens.entries, c ∈ e.1.toList

/-- Whether no stretch of characters of tokens has more than `n` signs. -/
def SignsAtMost (t : TokenTable) (n : Nat) (cs : List Char) : Prop :=
  ∀ stretch, stretch <:+: cs → (∀ c ∈ stretch, t.IsTokenChar c) → stretch.count '$' ≤ n

theorem replaceEach_append_cons {tokens : List (String × String)} {c : Char}
    (hne : ∀ e ∈ tokens, e.1.toList ≠ []) (hc : ∀ e ∈ tokens, c ∉ e.1.toList) (cs rest : List Char) :
    replaceEach tokens (cs ++ c :: rest) = replaceEach tokens cs ++ c :: replaceEach tokens rest := by
  induction tokens generalizing cs rest with
  | nil => rfl
  | cons e tokens ih =>
      obtain ⟨hhead, htail⟩ := List.forall_mem_cons.1 hne
      obtain ⟨hfirst, hothers⟩ := List.forall_mem_cons.1 hc
      simp only [replaceEach, List.foldl_cons, replace_append_cons hhead hfirst] at ih ⊢
      exact ih htail hothers _ _

theorem onePass_append_cons (ht : t.SignLed) {c : Char} (hc : ¬ t.IsTokenChar c)
    (cs rest : List Char) : t.onePass (cs ++ c :: rest) = t.onePass cs ++ c :: t.onePass rest :=
  replaceEach_append_cons ht.ne_nil (fun e he hmem => hc ⟨e, mem_ordered.1 he, hmem⟩) cs rest

theorem iterate_onePass_append_cons (ht : t.SignLed) {c : Char} (hc : ¬ t.IsTokenChar c) (n : Nat)
    (cs rest : List Char) :
    t.onePass^[n] (cs ++ c :: rest) = t.onePass^[n] cs ++ c :: t.onePass^[n] rest := by
  induction n generalizing cs rest with
  | zero => rfl
  | succ n ih => simp only [Function.iterate_succ_apply, onePass_append_cons ht hc, ih]

theorem TokenFree.append_cons {c : Char} {rest : List Char} (hc : ¬ t.IsTokenChar c)
    (hcs : t.TokenFree cs) (hrest : t.TokenFree rest) : t.TokenFree (cs ++ c :: rest) := by
  intro e he hin
  rcases infix_of_infix_append_cons (fun hmem => hc ⟨e, he, hmem⟩) hin with hleft | hright
  · exact hcs e he hleft
  · exact hrest e he hright

/-- With as many passes as one stretch of characters of tokens has signs, no token is left: outside of
such stretches a text can be cut, and its parts are gone over on their own. -/
theorem tokenFree_iterate_of_signsAtMost (ht : t.SignLed) {n : Nat} (hn : t.SignsAtMost n cs) :
    t.TokenFree (t.onePass^[n] cs) := by
  induction hlen : cs.length using Nat.strongRecOn generalizing cs with
  | ind length ih =>
      by_cases hall : ∀ c ∈ cs, t.IsTokenChar c
      · exact tokenFree_iterate_of_count_le ht (hn cs (List.infix_refl cs) hall)
      · simp only [not_forall] at hall
        obtain ⟨c, hmem, hc⟩ := hall
        obtain ⟨left, right, rfl⟩ := List.append_of_mem hmem
        rw [List.length_append, List.length_cons] at hlen
        have hleft : t.SignsAtMost n left := fun s hs =>
          hn s (hs.trans (List.prefix_append _ _).isInfix)
        have hright : t.SignsAtMost n right := fun s hs =>
          hn s (hs.trans ((List.suffix_cons c right).trans (List.suffix_append _ _)).isInfix)
        rw [iterate_onePass_append_cons ht hc]
        exact (ih left.length (by omega) hleft rfl).append_cons hc
          (ih right.length (by omega) hright rfl)

/-! ## What is left -/

/-- More passes than are needed change nothing. -/
theorem TokenFree.iterate_of_le (ht : t.SignLed) {n m : Nat} (hnm : n ≤ m)
    (h : t.TokenFree (t.onePass^[n] cs)) : t.TokenFree (t.onePass^[m] cs) := by
  obtain ⟨k, rfl⟩ := Nat.exists_eq_add_of_le' hnm
  rwa [Function.iterate_add_apply, Function.iterate_fixed (onePass_of_tokenFree ht h)]

theorem count_iterate_onePass_le (ht : t.SignLed) (n : Nat) (cs : List Char) :
    (t.onePass^[n] cs).count '$' ≤ cs.count '$' := by
  induction n generalizing cs with
  | zero => exact Nat.le_refl _
  | succ n ih =>
      refine (ih _).trans (count_replaceEach_le ht.ne_nil (fun e he => ?_) cs)
      exact ht.value e (mem_ordered.1 he)

/-- As long as a token is left, passes change the text. -/
theorem iterate_onePass_eq_self_iff (ht : t.SignLed) {n : Nat} (hn : n ≠ 0) :
    t.onePass^[n] cs = cs ↔ t.TokenFree cs := by
  refine ⟨fun heq => ?_, fun hfree => Function.iterate_fixed (onePass_of_tokenFree ht hfree) n⟩
  obtain ⟨n, rfl⟩ := Nat.exists_eq_succ_of_ne_zero hn
  by_contra hnot
  have hlt := count_onePass_lt ht hnot
  have hle := count_iterate_onePass_le ht n (t.onePass cs)
  rw [← Function.iterate_succ_apply, heq] at hle
  omega

/-- In the text that comes out no token is left exactly if as many passes as are allowed are enough, and
exactly then it comes out again when it is put in. They are enough where no stretch of characters of
tokens has more signs than that; and however many signs such a stretch has, that many passes always are
enough. -/
theorem tokenFree_substitute_iff (ht : t.SignLed) (text : String) :
    (t.TokenFree (t.substitute text).toList
        ↔ ∃ n ≤ maxPasses, t.TokenFree (t.onePass^[n] text.toList))
      ∧ (t.substitute (t.substitute text) = t.substitute text
        ↔ t.TokenFree (t.substitute text).toList)
      ∧ (t.SignsAtMost maxPasses text.toList → t.TokenFree (t.substitute text).toList)
      ∧ ∀ n, t.SignsAtMost n text.toList → t.TokenFree (t.onePass^[n] text.toList) := by
  have hpasses : maxPasses ≠ 0 := by decide
  refine ⟨⟨fun hfree => ⟨maxPasses, Nat.le_refl _, ?_⟩, ?_⟩, ?_, fun hsigns => ?_, fun n hsigns => ?_⟩
  · rwa [← toList_substitute ht]
  · rintro ⟨n, hn, hfree⟩
    rw [toList_substitute ht]
    exact hfree.iterate_of_le ht hn
  · rw [← String.toList_inj, toList_substitute ht, iterate_onePass_eq_self_iff ht hpasses]
  · rw [toList_substitute ht]
    exact tokenFree_iterate_of_signsAtMost ht hsigns
  · exact tokenFree_iterate_of_signsAtMost ht hsigns

/-- A token that another sign in front of its text makes up again. -/
def lettersTable : TokenTable :=
  ofList [("$a", "a")]

theorem signLed_lettersTable : lettersTable.SignLed := by
  have hentries : lettersTable.tokens.entries = [("$a", "a")] := rfl
  constructor
  · rw [hentries, List.forall_mem_singleton]
    exact ⟨'a', [], rfl⟩
  · rw [hentries, List.forall_mem_singleton]
    decide

/-- Eight signs on top of each other are taken off. -/
theorem tokenFree_substitute_letters :
    let out := lettersTable.substitute "$$$$$$$$a"
    lettersTable.SignLed ∧ lettersTable.SignsAtMost maxPasses "$$$$$$$$a".toList
      ∧ lettersTable.TokenFree out.toList ∧ lettersTable.substitute out = out := by
  intro out
  have hsigns : lettersTable.SignsAtMost maxPasses "$$$$$$$$a".toList := fun stretch hs _ =>
    hs.sublist.count_le '$'
  obtain ⟨-, hagain, hfree, -⟩ := tokenFree_substitute_iff signLed_lettersTable "$$$$$$$$a"
  exact ⟨signLed_lettersTable, hsigns, hfree hsigns, hagain.2 (hfree hsigns)⟩

/-- Of nine one is left, and then a token stands in what comes out. -/
theorem not_forall_tokenFree_substitute :
    ¬ ∀ t : TokenTable, t.SignLed → ∀ text, t.TokenFree (t.substitute text).toList := by
  intro hall
  have hout : lettersTable.substitute "$$$$$$$$$a" = "$a" := by decide +kernel
  refine hall lettersTable signLed_lettersTable "$$$$$$$$$a" ("$a", "a") List.mem_cons_self ?_
  rw [hout]

end Configurator.TokenTable
