import Configurator.Proofs.Template.Passes
import Configurator.Proofs.NameMap

/-!
# Substitution in templates

The tokens of a project are put in one after another, each in the text that the ones before it left.
On the texts that templates are, this is the same as going over the text once and putting them in where
they stand (`Replaces`). There a sign either begins a token or can never begin one, so that what is put
in for one token neither completes nor breaks another: replacing one more token carries a text in which
some have been replaced into one in which that token has been replaced as well (`Replaces.replace`).
-/

namespace Configurator.TokenTable

open Text

/-! ## Going over a text once -/

/-- Whether a text becomes another when it is gone over once from left to right: each token that is met
is replaced by its text, and all other characters are copied. -/
inductive Replaces (tokens : List (String × String)) : List Char → List Char → Prop
  | nil : Replaces tokens [] []
  | put {e : String × String} {rest out : List Char} (he : e ∈ tokens)
      (hrest : Replaces tokens rest out) :
      Replaces tokens (e.1.toList ++ rest) (e.2.toList ++ out)
  | copy {c : Char} {rest out : List Char} (hnone : ∀ e ∈ tokens, ¬ e.1.toList <+: c :: rest)
      (hrest : Replaces tokens rest out) : Replaces tokens (c :: rest) (c :: out)

/-- Whether what follows a sign can never complete a token. -/
def IsIdle (rest : List Char) : Prop :=
  rest = [] ∨ ∃ c more, rest = c :: more ∧ c ≠ '$' ∧ c.isAlpha = false

/-- Whether each sign of a text begins one of some tokens, or never can. -/
def Fits (tokens : List String) (cs : List Char) : Prop :=
  ∀ rest, '$' :: rest <:+ cs → (∃ token ∈ tokens, token.toList <+: '$' :: rest) ∨ IsIdle rest

theorem fits_nil (tokens : List String) : Fits tokens [] :=
  fun _ h => absurd (List.suffix_nil.1 h) (List.cons_ne_nil _ _)

theorem fits_cons {tokens : List String} {c : Char} {cs : List Char} :
    Fits tokens (c :: cs)
      ↔ (c = '$' → (∃ token ∈ tokens, token.toList <+: c :: cs) ∨ IsIdle cs) ∧ Fits tokens cs := by
  constructor
  · intro h
    refine ⟨?_, fun rest hrest => h rest (hrest.trans (List.suffix_cons _ _))⟩
    rintro rfl
    exact h cs (List.suffix_refl _)
  · rintro ⟨hhere, hlater⟩ rest hrest
    rcases List.suffix_cons_iff.1 hrest with heq | hrest
    · obtain ⟨rfl, rfl⟩ := List.cons.inj heq
      exact hhere rfl
    · exact hlater rest hrest

instance decidableIsIdle : (rest : List Char) → Decidable (IsIdle rest)
  | [] => .isTrue (.inl rfl)
  | c :: more => decidable_of_iff (c ≠ '$' ∧ c.isAlpha = false) <| by
      simp only [IsIdle, List.cons_ne_nil, List.cons.injEq, false_or]
      exact ⟨fun h => ⟨c, more, ⟨rfl, rfl⟩, h⟩, fun ⟨_, _, ⟨hc, _⟩, h⟩ => hc ▸ h⟩

instance decidableFits (tokens : List String) : (cs : List Char) → Decidable (Fits tokens cs)
  | [] => .isTrue (fits_nil tokens)
  | _ :: cs =>
      have := decidableFits tokens cs
      decidable_of_iff _ fits_cons.symm

/-- Whether tokens are words with a sign in front, none the beginning of another, and stand for texts
without signs. -/
structure Worded (tokens : List (String × String)) : Prop where
  word : ∀ e ∈ tokens, ∃ word, e.1.toList = '$' :: word ∧ word ≠ [] ∧ ∀ c ∈ word, c.isAlpha = true
  unique : ∀ e ∈ tokens, ∀ f ∈ tokens, e.1.toList <+: f.1.toList → e = f
  value : ∀ e ∈ tokens, '$' ∉ e.2.toList

variable {all tokens : List (String × String)} {e f : String × String} {cs out rest : List Char}

theorem suffix_of_suffix_append_of_not_mem {sign : Char} {part later : List Char} (hpart : sign ∉ part)
    (h : sign :: later <:+ part ++ rest) : sign :: later <:+ rest := by
  induction part with
  | nil => exact h
  | cons c part ih =>
      rw [List.mem_cons, not_or] at hpart
      rcases List.suffix_cons_iff.1 h with hhere | hlater
      · exact absurd (List.cons.inj hhere).1 hpart.1
      · exact ih hpart.2 hlater

theorem sign_not_mem_of_isAlpha {word : List Char} (hword : ∀ c ∈ word, c.isAlpha = true) :
    '$' ∉ word :=
  fun h => absurd (hword _ h) (by decide)

namespace Worded

theorem ne_nil (hall : Worded all) (he : e ∈ all) : e.1.toList ≠ [] := by
  obtain ⟨word, htoken, -⟩ := hall.word e he
  exact htoken ▸ List.cons_ne_nil _ _

/-- No token begins with another character than a sign. -/
theorem not_prefix_cons (hall : Worded all) (he : e ∈ all) {c : Char} (hc : c ≠ '$') :
    ¬ e.1.toList <+: c :: rest := by
  obtain ⟨word, htoken, -⟩ := hall.word e he
  rw [htoken]
  exact fun h => hc (List.cons_prefix_cons.1 h).1.symm

theorem not_prefix_of_isIdle (hall : Worded all) (he : e ∈ all) (hrest : IsIdle rest) :
    ¬ e.1.toList <+: '$' :: rest := by
  obtain ⟨word, htoken, hne, hword⟩ := hall.word e he
  obtain ⟨a, word, rfl⟩ := List.exists_cons_of_ne_nil hne
  rw [htoken]
  intro h
  have hstands := (List.cons_prefix_cons.1 h).2
  rcases hrest with rfl | ⟨c, more, rfl, -, hc⟩
  · exact absurd (List.prefix_nil.1 hstands) (List.cons_ne_nil _ _)
  · rw [← (List.cons_prefix_cons.1 hstands).1, hword a List.mem_cons_self] at hc
    cases hc

/-- Only one token can stand in one place. -/
theorem eq_of_both_stand (hall : Worded all) (he : e ∈ all) (hf : f ∈ all) (hstands : e.1.toList <+: cs)
    (hstands' : f.1.toList <+: cs) : e = f := by
  rcases List.prefix_or_prefix_of_prefix hstands hstands' with h | h
  · exact hall.unique e he f hf h
  · exact (hall.unique f hf e he h).symm

theorem signLed {t : TokenTable} (hall : Worded t.tokens.entries) : t.SignLed where
  token := fun e he => by
    obtain ⟨word, htoken, hne, -⟩ := hall.word e he
    obtain ⟨a, word, rfl⟩ := List.exists_cons_of_ne_nil hne
    exact ⟨a, word, htoken⟩
  value := hall.value

theorem replace_append (hall : Worded all) (he : e ∈ all) {part : List Char} (hpart : '$' ∉ part)
    (rest : List Char) :
    replace e.1.toList e.2.toList (part ++ rest) = part ++ replace e.1.toList e.2.toList rest := by
  obtain ⟨word, htoken, -⟩ := hall.word e he
  rw [htoken]
  exact replace_append_of_not_mem hpart rest

end Worded

namespace Replaces

/-- Without tokens all is copied. -/
theorem of_nil (cs : List Char) : Replaces [] cs cs := by
  induction cs with
  | nil => exact .nil
  | cons c cs ih => exact .copy (fun _ h => absurd h List.not_mem_nil) ih

theorem congr {tokens' : List (String × String)} (hmem : ∀ e, e ∈ tokens ↔ e ∈ tokens')
    (h : Replaces tokens cs out) : Replaces tokens' cs out := by
  induction h with
  | nil => exact .nil
  | put he _ ih => exact .put ((hmem _).1 he) ih
  | copy hnone _ ih => exact .copy (fun e he => hnone e ((hmem e).2 he)) ih

/-- What begins with another character than a sign is copied. -/
theorem exists_of_cons (hall : Worded all) (hsub : tokens ⊆ all) {c : Char} (hc : c ≠ '$')
    (h : Replaces tokens (c :: rest) out) : ∃ out', out = c :: out' ∧ Replaces tokens rest out' := by
  generalize hcs : c :: rest = cs at h
  cases h with
  | nil => cases hcs
  | @put e _ _ he _ =>
      have hnot : ¬ e.1.toList <+: c :: rest := hall.not_prefix_cons (hsub he) hc
      exact absurd (hcs ▸ List.prefix_append _ _) hnot
  | copy _ hrest =>
      cases hcs
      exact ⟨_, rfl, hrest⟩

/-- A stretch without signs is copied. -/
theorem exists_of_append (hall : Worded all) (hsub : tokens ⊆ all) {part : List Char}
    (hpart : '$' ∉ part) (h : Replaces tokens (part ++ rest) out) :
    ∃ out', out = part ++ out' ∧ Replaces tokens rest out' := by
  induction part generalizing out with
  | nil => exact ⟨out, rfl, h⟩
  | cons c part ih =>
      rw [List.mem_cons, not_or] at hpart
      rw [List.cons_append] at h
      obtain ⟨later, rfl, hlater⟩ := exists_of_cons hall hsub (Ne.symm hpart.1) h
      obtain ⟨out', rfl, hout⟩ := ih hpart.2 hlater
      exact ⟨out', rfl, hout⟩

/-- The word of a token that stands at a sign is copied when the sign is. -/
theorem exists_of_stands (hall : Worded all) (hsub : tokens ⊆ all) (hf : f ∈ all)
    (hstands : f.1.toList <+: '$' :: rest) (h : Replaces tokens rest out) :
    ∃ word rest' out', f.1.toList = '$' :: word ∧ '$' ∉ word ∧ rest = word ++ rest'
      ∧ out = word ++ out' := by
  obtain ⟨word, htoken, -, hword⟩ := hall.word f hf
  obtain ⟨rest', hrest'⟩ := hstands
  rw [htoken, List.cons_append] at hrest'
  obtain rfl := (List.cons.inj hrest').2
  have hsigns := sign_not_mem_of_isAlpha hword
  obtain ⟨out', rfl, -⟩ := exists_of_append hall hsub hsigns h
  exact ⟨word, rest', out', htoken, hsigns, rfl, rfl⟩

theorem isIdle (hall : Worded all) (hsub : tokens ⊆ all) (h : Replaces tokens rest out)
    (hrest : IsIdle rest) : IsIdle out := by
  rcases hrest with rfl | ⟨c, more, rfl, hc, halpha⟩
  · generalize hnil : ([] : List Char) = cs at h
    cases h with
    | nil => exact .inl rfl
    | put he _ =>
        exact absurd (List.append_eq_nil_iff.1 hnil.symm).1 (hall.ne_nil (hsub he))
    | copy => cases hnil
  · obtain ⟨out', rfl, -⟩ := exists_of_cons hall hsub hc h
    exact .inr ⟨c, out', rfl, hc, halpha⟩

/-- Replacing one more token in what came out puts it in as well. -/
theorem replace (hall : Worded all) (hsub : tokens ⊆ all) (he : e ∈ all)
    (h : Replaces tokens cs out) (hfits : Fits (all.map (·.1)) cs) :
    Replaces (e :: tokens) cs (Text.replace e.1.toList e.2.toList out) := by
  have hsub' : e :: tokens ⊆ all := List.cons_subset.2 ⟨he, hsub⟩
  have hne := hall.ne_nil he
  induction h with
  | nil =>
      rw [replace_nil hne]
      exact .nil
  | @put f rest out hf hrest ih =>
      rw [hall.replace_append he (hall.value f (hsub hf))]
      exact .put (List.mem_cons_of_mem e hf)
        (ih fun more hmore => hfits more (hmore.trans (List.suffix_append _ _)))
  | @copy c rest out hnone hrest ih =>
      have hnext := ih fun more hmore => hfits more (hmore.trans (List.suffix_cons _ _))
      -- a character is copied again unless the new token stands there
      have hcopy : ¬ e.1.toList <+: c :: rest → ¬ e.1.toList <+: c :: out →
          Replaces (e :: tokens) (c :: rest) (Text.replace e.1.toList e.2.toList (c :: out)) := by
        intro hnot hnot'
        rw [replace_cons hne hnot']
        exact .copy (List.forall_mem_cons.2 ⟨hnot, hnone⟩) hnext
      by_cases hc : c = '$'
      · subst hc
        rcases hfits rest (List.suffix_refl _) with ⟨name, hname, hstands⟩ | hidle
        · obtain ⟨f, hf, rfl⟩ := List.mem_map.1 hname
          obtain ⟨word, rest', out', htoken, hsigns, rfl, rfl⟩ :=
            exists_of_stands hall hsub hf hstands hrest
          by_cases hef : e = f
          · subst hef
            rw [hall.replace_append he hsigns] at hnext
            obtain ⟨out'', hout, hnext⟩ := exists_of_append hall hsub' hsigns hnext
            rw [← List.append_cancel_left hout] at hnext
            rw [← List.cons_append, ← List.cons_append, ← htoken, replace_mark_append hne]
            exact .put List.mem_cons_self hnext
          · have hother : ∀ later, ¬ e.1.toList <+: '$' :: (word ++ later) := by
              refine fun later h => hef (hall.eq_of_both_stand he hf h ?_)
              rw [htoken, ← List.cons_append]
              exact List.prefix_append _ _
            exact hcopy (hother rest') (hother out')
        · exact hcopy (hall.not_prefix_of_isIdle he hidle)
            (hall.not_prefix_of_isIdle he (hrest.isIdle hall hsub hidle))
      · exact hcopy (hall.not_prefix_cons he hc) (hall.not_prefix_cons he hc)

/-- Replacing one token after another puts all of them in. -/
theorem replaceEach (hall : Worded all) {more : List (String × String)} (hmore : more ⊆ all)
    (hsub : tokens ⊆ all) (h : Replaces tokens cs out) (hfits : Fits (all.map (·.1)) cs) :
    Replaces (more.reverse ++ tokens) cs (TokenTable.replaceEach more out) := by
  induction more generalizing tokens out with
  | nil => exact h
  | cons e more ih =>
      obtain ⟨he, hrest⟩ := List.cons_subset.1 hmore
      rw [List.reverse_cons, List.append_assoc]
      exact ih hrest (List.cons_subset.2 ⟨he, hsub⟩) (h.replace hall hsub he hfits)

/-- What comes out is determined: of tokens none of which begins with another, only one can stand in a
place. -/
theorem unique (hall : Worded tokens) {out' : List Char} (h : Replaces tokens cs out)
    (h' : Replaces tokens cs out') : out = out' := by
  induction h generalizing out' with
  | nil =>
      generalize hcs : ([] : List Char) = cs at h'
      cases h' with
      | nil => rfl
      | put he _ => exact absurd (List.append_eq_nil_iff.1 hcs.symm).1 (hall.ne_nil he)
      | copy => cases hcs
  | @put e rest out he hrest ih =>
      generalize hcs : e.1.toList ++ rest = cs at h'
      cases h' with
      | nil => exact absurd (List.append_eq_nil_iff.1 hcs).1 (hall.ne_nil he)
      | @put f rest' out' hf hrest' =>
          obtain rfl := hall.eq_of_both_stand he hf (hcs ▸ List.prefix_append _ _) (List.prefix_append _ _)
          obtain rfl := List.append_cancel_left hcs
          rw [ih hrest']
      | copy hnone _ => exact absurd (hcs ▸ List.prefix_append _ _) (hnone e he)
  | @copy c rest out hnone hrest ih =>
      generalize hcs : c :: rest = cs at h'
      cases h' with
      | nil => cases hcs
      | put hf _ => exact absurd (hcs ▸ List.prefix_append _ _) (hnone _ hf)
      | copy _ hrest' =>
          cases hcs
          rw [ih hrest']

/-- A sign that is left over can never begin a token. -/
theorem isIdle_of_sign (hall : Worded tokens) (h : Replaces tokens cs out)
    (hfits : Fits (tokens.map (·.1)) cs) {later : List Char} (hlater : '$' :: later <:+ out) :
    IsIdle later := by
  induction h with
  | nil => exact absurd (List.suffix_nil.1 hlater) (List.cons_ne_nil _ _)
  | @put e rest out he hrest ih =>
      refine ih (fun more hmore => hfits more (hmore.trans (List.suffix_append _ _))) ?_
      exact suffix_of_suffix_append_of_not_mem (hall.value e he) hlater
  | @copy c rest out hnone hrest ih =>
      rcases List.suffix_cons_iff.1 hlater with hhere | hlater
      · obtain ⟨rfl, rfl⟩ := List.cons.inj hhere
        rcases hfits rest (List.suffix_refl _) with ⟨name, hname, hstands⟩ | hidle
        · obtain ⟨e, he, rfl⟩ := List.mem_map.1 hname
          exact absurd hstands (hnone e he)
        · exact hrest.isIdle hall (List.Subset.refl _) hidle
      · exact ih (fun more hmore => hfits more (hmore.trans (List.suffix_cons _ _))) hlater

end Replaces

/-! ## All passes -/

variable {t : TokenTable}

theorem replaces_onePass (ht : Worded t.tokens.entries) (hfits : Fits t.tokens.keys cs) :
    Replaces t.tokens.entries cs (t.onePass cs) := by
  have hsub : t.ordered ⊆ t.tokens.entries := fun _ he => mem_ordered.1 he
  refine ((Replaces.of_nil cs).replaceEach ht hsub (List.nil_subset _) hfits).congr fun e => ?_
  rw [List.append_nil, List.mem_reverse, mem_ordered]

/-- Where signs begin tokens or stay alone, the passes are together one pass over the text that puts in
each token where it stands, and no token is left. -/
theorem substitute_of_fits (ht : Worded t.tokens.entries) {text : String}
    (hfits : Fits t.tokens.keys text.toList) :
    (∀ out : String, Replaces t.tokens.entries text.toList out.toList ↔ t.substitute text = out)
      ∧ t.TokenFree (t.substitute text).toList
      ∧ t.substitute (t.substitute text) = t.substitute text := by
  have honce := replaces_onePass ht hfits
  have hfree : t.TokenFree (t.onePass text.toList) := by
    intro e he hin
    obtain ⟨word, htoken, -⟩ := ht.word e he
    obtain ⟨later, hstands, hlater⟩ := List.infix_iff_prefix_suffix.1 hin
    obtain ⟨rest, rfl⟩ := hstands
    rw [htoken, List.cons_append] at hlater
    refine ht.not_prefix_of_isIdle he (honce.isIdle_of_sign ht hfits hlater) ?_
    rw [htoken, ← List.cons_append]
    exact List.prefix_append _ _
  have hstays : ∀ n, t.onePass^[n] (t.onePass text.toList) = t.onePass text.toList := fun n =>
    Function.iterate_fixed (onePass_of_tokenFree ht.signLed hfree) n
  have hout : (t.substitute text).toList = t.onePass text.toList := by
    rw [toList_substitute ht.signLed, maxPasses, Function.iterate_succ_apply, hstays]
  refine ⟨fun out => ⟨fun h => ?_, fun h => ?_⟩, hout ▸ hfree, ?_⟩
  · rw [← String.toList_inj, hout]
    exact honce.unique ht h
  · rw [← h, hout]
    exact honce
  · rw [← String.toList_inj, toList_substitute ht.signLed, hout, hstays]

end Configurator.TokenTable
