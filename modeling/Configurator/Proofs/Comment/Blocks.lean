import Configurator.Comment.Block
import Configurator.Proofs.Text.Cuts
import Mathlib.Data.List.Infix

/-!
# Where documentation blocks stand

The search for documentation blocks is a scan from opener to closer: a block opens at the first opener
that is not inside another block, reaches to the first closer behind it, and the scan goes on behind
that (`openings`, `docBlocks_eq`).

The empty comment begins as a block does. In the syntax of comments it is closed at once and opens
nothing, but the search takes it for an opener and reads what follows up to the next closer. So blocks
are found where comments have them exactly if the search does not come upon an empty comment
(`docBlocks_spec`).
-/

namespace Configurator.Comment

open Text

/-! ## Scanning for blocks -/

def opener : List Char :=
  ['/', '*', '*']

def closer : List Char :=
  ['*', '/']

def emptyComment : List Char :=
  ['/', '*', '*', '/']

/-- Whether a text begins with the opener of a documentation block. -/
def opensBlock (cs : List Char) : Bool :=
  opener.isPrefixOf cs && !emptyComment.isPrefixOf cs

theorem splitAtFirst?_drop_length {c : Char} {cs body rest : List Char} {n : Nat}
    (h : splitAtFirst? closer ((c :: cs).drop n) = some (body, rest)) :
    rest.length < (c :: cs).length := by
  have hlen := congrArg List.length (splitAtFirst?_eq_some h)
  simp only [closer, List.length_drop, List.length_append, List.length_cons, List.length_nil]
    at hlen ⊢
  omega

/-- The ends of a text at which a block opens, where `opens` says whether a text begins with an opener.
A block reaches to the first closer behind the three characters of its opener, and the next one is
looked for behind that; a block without a closer is none. -/
def openings (opens : List Char → Bool) (cs : List Char) : List (List Char) :=
  match cs with
  | [] => []
  | c :: cs =>
    if opens (c :: cs) then
      match _h : splitAtFirst? closer ((c :: cs).drop 3) with
      | some (_, rest) => (c :: cs) :: openings opens rest
      | none => []
    else openings opens cs
termination_by cs.length
decreasing_by
  · exact splitAtFirst?_drop_length ‹_›
  · simp

/-- The lines of the block at the beginning of a text. The blanks behind the opener and the stars in
front of the closer do not count, nor do the blanks around a line and its leading stars, nor empty lines
at the end. -/
def linesOf (cs : List Char) : List String :=
  match splitAtFirst? closer (cs.drop 3) with
  | none => []
  | some (inside, _) =>
    let body := dropEndWhile isStar (trimStart inside)
    dropEndWhile (· == "") ((lines body).map fun line =>
      String.ofList (trim ((trim line).dropWhile isStar)))

variable {opens opens' : List Char → Bool} {c : Char} {cs here body rest : List Char}

theorem openings_of_not_opens (h : opens (c :: cs) = false) :
    openings opens (c :: cs) = openings opens cs := by
  rw [openings, if_neg (by simp [h])]

theorem openings_of_opens (h : opens (c :: cs) = true)
    (hclose : splitAtFirst? closer ((c :: cs).drop 3) = some (body, rest)) :
    openings opens (c :: cs) = (c :: cs) :: openings opens rest := by
  rw [openings, if_pos h]
  split
  · next h' =>
    rw [hclose, Option.some.injEq, Prod.mk.injEq] at h'
    rw [h'.2]
  · next h' =>
    rw [hclose] at h'
    cases h'

theorem splitAtFirst?_eq_none_iff {mark cs : List Char} :
    splitAtFirst? mark cs = none ↔ ¬ mark <:+: cs := by
  rw [← contains_eq_true_iff, contains, Option.isSome_iff_ne_none, ne_eq, not_not]

/-- Without a closer no block is closed. -/
theorem openings_of_no_closer (h : ¬ closer <:+: cs.drop 3) : openings opens cs = [] := by
  fun_induction openings opens cs with
  | case1 => rfl
  | case2 c cs _ _ _ hclose _ =>
      rw [splitAtFirst?_eq_none_iff.2 h] at hclose
      cases hclose
  | case3 => rfl
  | case4 c cs _ ih =>
      have hlater : cs.drop 3 <:+ (c :: cs).drop 3 :=
        List.drop_suffix_drop_left cs (show 2 ≤ 3 by omega)
      exact ih fun hcloser => h (hcloser.trans hlater.isInfix)

theorem opens_of_mem_openings (h : here ∈ openings opens cs) : opens here = true := by
  fun_induction openings opens cs with
  | case1 => cases h
  | case2 c cs hopens body rest hclose ih =>
      rcases List.mem_cons.1 h with rfl | h
      · exact hopens
      · exact ih h
  | case3 => cases h
  | case4 c cs _ ih => exact ih h

/-- Scans of which one takes fewer texts for openers find the same blocks exactly if it takes each of
them for one. -/
theorem openings_eq_iff (hfewer : ∀ cs, opens' cs = true → opens cs = true) (cs : List Char) :
    openings opens cs = openings opens' cs ↔ ∀ here ∈ openings opens cs, opens' here = true := by
  constructor
  · intro h here hhere
    exact opens_of_mem_openings (h ▸ hhere)
  · intro h
    fun_induction openings opens cs with
    | case1 => rw [openings]
    | case2 c cs hopens body rest hclose ih =>
        rw [openings_of_opens (h _ List.mem_cons_self) hclose,
          ih fun here hhere => h here (List.mem_cons_of_mem _ hhere)]
    | case3 c cs _ hclose =>
        exact (openings_of_no_closer (splitAtFirst?_eq_none_iff.1 hclose)).symm
    | case4 c cs hopens ih =>
        have hnot : opens' (c :: cs) = false := by
          by_contra hopens'
          exact hopens (hfewer _ (by simpa using hopens'))
        rw [openings_of_not_opens hnot, ih h]

/-! ## The search for blocks -/

/-- What stands in front of the first closer is the same without the blanks at its beginning. -/
theorem splitAtFirst?_trimStart (cs : List Char) :
    splitAtFirst? closer (trimStart cs)
      = (splitAtFirst? closer cs).map fun (before, after) => (trimStart before, after) := by
  induction cs with
  | nil => rfl
  | cons c cs ih =>
      cases hc : isBlank c with
      | true =>
          have hne : '*' ≠ c := by
            rintro rfl
            cases hc
          have hskip : splitAtFirst? closer (c :: cs)
              = (splitAtFirst? closer cs).map fun x => (c :: x.1, x.2) := by
            rw [splitAtFirst?]
            simp [closer, dropPrefix?, hne]
          rw [trimStart, List.dropWhile_cons_of_pos hc, ← trimStart, ih, hskip, Option.map_map]
          congr 1
          funext x
          simp [trimStart, List.dropWhile_cons_of_pos hc]
      | false =>
          rw [trimStart, List.dropWhile_cons_of_neg (by simp [hc])]
          cases hsplit : splitAtFirst? closer (c :: cs) with
          | none => rfl
          | some found =>
              obtain ⟨before, after⟩ := found
              have hstart : trimStart before = before := by
                cases before with
                | nil => rfl
                | cons d before =>
                    rw [(List.cons.inj (splitAtFirst?_eq_some hsplit)).1] at hc
                    exact List.dropWhile_cons_of_neg (by simp [hc])
              simp [hstart]

/-- A block that the search finds begins with an opener and goes to the first closer behind it. -/
theorem blockBody?_eq (cs : List Char) :
    blockBody? cs = if opener.isPrefixOf cs then
      (splitAtFirst? closer (cs.drop 3)).map fun (inside, rest) => (trimStart inside, rest)
      else none := by
  unfold blockBody?
  split
  · next hnone =>
    refine (if_neg fun hopener => ?_).symm
    obtain ⟨inside, rfl⟩ := List.isPrefixOf_iff_prefix.1 hopener
    have hinside : dropPrefix? opener (opener ++ inside) = some inside :=
      dropPrefix?_eq_some_iff.2 rfl
    cases hnone.symm.trans hinside
  · next inside hinside =>
    obtain rfl : cs = opener ++ inside := dropPrefix?_eq_some_iff.1 hinside
    rw [if_pos (List.isPrefixOf_iff_prefix.2 (List.prefix_append opener inside))]
    exact splitAtFirst?_trimStart inside

/-- The search finds the blocks that begin with any opener. -/
theorem docBlocks_eq (cs : List Char) : docBlocks cs = (openings opener.isPrefixOf cs).map linesOf := by
  fun_induction docBlocks cs with
  | case1 => rw [openings, List.map_nil]
  | case2 c cs body rest hbody ih =>
      rw [blockBody?_eq] at hbody
      split at hbody
      · next hopener =>
        obtain ⟨⟨inside, rest'⟩, hclose, heq⟩ := Option.map_eq_some_iff.1 hbody
        obtain ⟨rfl, rfl⟩ := Prod.mk.inj heq
        rw [openings_of_opens hopener hclose, List.map_cons, ih]
        refine congrArg (· :: _) ?_
        rw [linesOf, hclose]
        rfl
      · cases hbody
  | case3 c cs hnone ih =>
      rw [blockBody?_eq] at hnone
      split at hnone
      · next hopener =>
        have hcloser := splitAtFirst?_eq_none_iff.1 (Option.map_eq_none_iff.1 hnone)
        have hlater : cs.drop 3 <:+ (c :: cs).drop 3 :=
          List.drop_suffix_drop_left cs (show 2 ≤ 3 by omega)
        rw [openings_of_no_closer hcloser, ih,
          openings_of_no_closer fun h => hcloser (h.trans hlater.isInfix)]
      · next hopener => rw [openings_of_not_opens (Bool.not_eq_true _ ▸ hopener), ih]

/-- The search finds the blocks from each opener to its closer, and these open where the documentation
blocks of the text do exactly if none of them opens at an empty comment. -/
theorem docBlocks_spec (cs : List Char) :
    docBlocks cs = (openings opener.isPrefixOf cs).map linesOf
      ∧ (openings opener.isPrefixOf cs = openings opensBlock cs
        ↔ ∀ here ∈ openings opener.isPrefixOf cs, ¬ emptyComment <+: here) := by
  refine ⟨docBlocks_eq cs, ?_⟩
  have hfewer : ∀ cs, opensBlock cs = true → opener.isPrefixOf cs = true :=
    fun cs h => (Bool.and_eq_true_iff.1 h).1
  rw [openings_eq_iff hfewer]
  refine forall₂_congr fun here hhere => ?_
  rw [opensBlock, opens_of_mem_openings hhere, Bool.true_and, Bool.not_eq_true',
    ← Bool.not_eq_true, List.isPrefixOf_iff_prefix]

/-- Behind an empty comment the search reads code as the text of a block. -/
theorem not_forall_docBlocks_eq :
    ¬ ∀ cs, docBlocks cs = (openings opensBlock cs).map linesOf := by
  intro h
  have hfound : docBlocks "/**/ int x; /** Doc */".toList = [["/ int x; /** Doc"]] := by decide +kernel
  have hblocks : (openings opensBlock "/**/ int x; /** Doc */".toList).map linesOf = [["Doc"]] := by
    decide +kernel
  have heq := h "/**/ int x; /** Doc */".toList
  rw [hfound, hblocks] at heq
  exact absurd heq (by decide)

end Configurator.Comment
