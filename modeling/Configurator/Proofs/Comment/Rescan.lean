import Configurator.Proofs.Comment.Lines

/-!
# Finding the defines again

A style finds in the new text what it finds in the old one, if every value that is exchanged stands
outside of comments and on a line of its own. It is followed through both texts at once
(`sites_exchange`): where it finds nothing in the old text it finds nothing in the new one, and where
it finds a define, that is found again and the search goes on behind it in both.
-/

namespace Configurator.Comment

open Text

variable {swaps : Nat → Option Swap} {text cs : List Char}

/-! ## Comments of the new text -/

/-- Whether no documentation block is open where an exchanged value's head begins. -/
def BlocksClosed (swaps : Nat → Option Swap) (text : List Char) : Prop :=
  ∀ inside cs, ['/', '*', '*'] ++ (inside ++ cs) <:+ text → Swapped swaps cs →
    contains ['*', '/'] inside = true

/-- Whether no line comment goes on where an exchanged value's head begins. -/
def LinesEnded (swaps : Nat → Option Swap) (text : List Char) : Prop :=
  ∀ inside cs, ['/', '/', '/'] ++ (inside ++ cs) <:+ text → Swapped swaps cs → '\n' ∈ inside

theorem contains_cons {mark cs : List Char} {c : Char} (h : contains mark (c :: cs) = true)
    (hnone : dropPrefix? mark (c :: cs) = none) : contains mark cs = true := by
  unfold contains at h ⊢
  rwa [splitAtFirst?, hnone, Option.isSome_map] at h

/-- Blanks are no part of the end of a block. -/
theorem contains_of_blanks_append {gap cs : List Char} (hgap : ∀ c ∈ gap, isBlank c = true)
    (h : contains ['*', '/'] (gap ++ cs) = true) : contains ['*', '/'] cs = true := by
  induction gap with
  | nil => exact h
  | cons c gap ih =>
      refine ih (fun d hd => hgap d (List.mem_cons_of_mem c hd)) (contains_cons h ?_)
      have hc : '*' ≠ c := by
        rintro rfl
        exact absurd (hgap '*' List.mem_cons_self) (by decide)
      simp [dropPrefix?, hc]

theorem sign_not_mem_takeWhile {p : Char → Bool} (hsign : p '#' = false) (cs : List Char) :
    '#' ∉ cs.takeWhile p := by
  intro hmem
  rw [List.mem_takeWhile_imp hmem] at hsign
  cases hsign

/-- A mark that stands in front of every exchanged value is found where it was. -/
theorem splitAtFirst?_exchange {mark : List Char} (hsign : '#' ∉ mark) (hne : mark ≠ [])
    (h : ∀ before ds, cs = before ++ ds → Swapped swaps ds → contains mark before = true) :
    splitAtFirst? mark (exchange swaps cs)
        = (splitAtFirst? mark cs).map (fun (before, after) => (before, exchange swaps after))
      ∧ ∀ before after, splitAtFirst? mark cs = some (before, after) →
          Untouched swaps (before ++ mark) after := by
  induction cs with
  | nil =>
      rw [exchange_nil]
      simp [splitAtFirst?, hne]
  | cons c cs ih =>
      have hkept : ¬ Swapped swaps (c :: cs) := by
        intro hswapped
        have hnil := h [] (c :: cs) rfl hswapped
        simp [contains, splitAtFirst?, hne] at hnil
      have hmark : dropPrefix? mark (exchange swaps (c :: cs))
          = (dropPrefix? mark (c :: cs)).map (exchange swaps) := dropPrefix?_exchange hsign (c :: cs)
      rw [exchange_cons hkept] at hmark ⊢
      rw [splitAtFirst?, splitAtFirst?, hmark]
      cases hfront : dropPrefix? mark (c :: cs) with
      | some rest =>
          refine ⟨rfl, fun before after heq => ?_⟩
          obtain ⟨rfl, rfl⟩ := Prod.mk.inj (Option.some.inj heq)
          exact untouched_of_not_mem hsign rest
      | none =>
          obtain ⟨hnew, hkeeps⟩ := ih fun before ds hsplit hswapped => by
            refine contains_cons (h (c :: before) ds (by rw [hsplit, List.cons_append]) hswapped) ?_
            cases hstart : dropPrefix? mark (c :: before) with
            | none => rfl
            | some rest =>
                have hmarked := dropPrefix?_eq_some_iff.1 hstart
                have hthere : dropPrefix? mark (c :: cs) = some (rest ++ ds) := by
                  refine dropPrefix?_eq_some_iff.2 ?_
                  rw [hsplit, ← List.cons_append, hmarked, List.append_assoc]
                rw [hfront] at hthere
                cases hthere
          refine ⟨?_, fun before after heq => ?_⟩
          · dsimp only [Option.map_none]
            rw [hnew, Option.map_map, Option.map_map]
            rfl
          · obtain ⟨⟨before', after'⟩, hfound, hpair⟩ := Option.map_eq_some_iff.1 heq
            obtain ⟨rfl, rfl⟩ := Prod.mk.inj hpair
            have hsplit := splitAtFirst?_eq_some hfound
            rw [List.cons_append]
            refine untouched_cons.2 ⟨?_, hkeeps _ _ hfound⟩
            rwa [← hsplit]

/-- A documentation block is read as before if it is closed in front of every exchanged value. -/
theorem blockBody?_exchange (h : BlocksClosed swaps cs) :
    blockBody? (exchange swaps cs)
        = (blockBody? cs).map (fun (body, rest) => (body, exchange swaps rest))
      ∧ ∀ body rest, blockBody? cs = some (body, rest) →
          ∃ block, cs = block ++ rest ∧ Untouched swaps block rest := by
  unfold blockBody?
  rw [dropPrefix?_exchange (by decide)]
  cases hinside : dropPrefix? ['/', '*', '*'] cs with
  | none => simp
  | some inside =>
      have hopen := dropPrefix?_eq_some_iff.1 hinside
      have hclosed : ∀ before ds, trimStart inside = before ++ ds → Swapped swaps ds →
          contains ['*', '/'] before = true := by
        intro before ds hsplit hswapped
        have hall : inside = inside.takeWhile isBlank ++ before ++ ds := by
          rw [List.append_assoc, ← hsplit, trimStart, List.takeWhile_append_dropWhile]
        have hin := h (inside.takeWhile isBlank ++ before) ds (by rw [← hall, ← hopen]) hswapped
        exact contains_of_blanks_append (fun c hc => List.mem_takeWhile_imp hc) hin
      obtain ⟨hnew, hkept⟩ := splitAtFirst?_exchange (by decide) (by decide) hclosed
      have htrim : trimStart (exchange swaps inside) = exchange swaps (trimStart inside) :=
        dropWhile_exchange (by decide) inside
      refine ⟨?_, fun body rest heq => ?_⟩
      · rw [Option.map_some]
        dsimp only
        rw [htrim, hnew]
      · have hsplit := splitAtFirst?_eq_some heq
        refine ⟨['/', '*', '*'] ++ (inside.takeWhile isBlank ++ (body ++ ['*', '/'])), ?_, ?_⟩
        · rw [hopen, List.append_assoc, List.append_assoc, ← hsplit, trimStart,
            List.takeWhile_append_dropWhile]
        · refine untouched_append.2 ⟨untouched_of_not_mem (by decide) _, ?_⟩
          have hgap := sign_not_mem_takeWhile (p := isBlank) (by decide) inside
          exact untouched_append.2 ⟨untouched_of_not_mem hgap _, hkept _ _ heq⟩

/-- A line comment stays as it is. -/
theorem takeWhile_lineFeed_exchange (h : LinesEnded swaps (['/', '/', '/'] ++ cs)) :
    (exchange swaps cs).takeWhile (· ≠ '\n') = cs.takeWhile (· ≠ '\n')
      ∧ (exchange swaps cs).dropWhile (· ≠ '\n') = exchange swaps (cs.dropWhile (· ≠ '\n'))
      ∧ Untouched swaps (cs.takeWhile (· ≠ '\n')) (cs.dropWhile (· ≠ '\n')) := by
  have hkept : Untouched swaps (cs.takeWhile (· ≠ '\n')) (cs.dropWhile (· ≠ '\n')) := by
    intro t ht hne hswapped
    obtain ⟨inside, hinside⟩ := ht
    have hmem := h inside _ (by
      rw [← List.append_assoc inside, hinside, List.takeWhile_append_dropWhile]) hswapped
    have hin : '\n' ∈ cs.takeWhile (· ≠ '\n') := by
      rw [← hinside]
      exact List.mem_append_left _ hmem
    simpa using List.mem_takeWhile_imp hin
  have hpost := followsLine_dropWhile cs
  have hpost' : FollowsLine (exchange swaps (cs.dropWhile (· ≠ '\n'))) := by
    intro c hc
    rw [head?_exchange] at hc
    exact hpost c hc
  have htake := takeWhile_exchange_line (p := (· ≠ '\n')) (by decide) hpost hpost' hkept
  have hdrop := dropWhile_exchange_line (p := (· ≠ '\n')) (by decide) hpost hpost' hkept
  rw [List.takeWhile_append_dropWhile] at htake hdrop
  exact ⟨htake, hdrop, hkept⟩

/-! ## Sites of the new text -/

/-- Whether exchanged values stand where they neither become part of a comment nor take part in
one. -/
structure Sound (swaps : Nat → Option Swap) (text : List Char) : Prop where
  fits : Fits swaps text
  blocks : BlocksClosed swaps text
  lines : LinesEnded swaps text

theorem Sound.of_suffix (h : Sound swaps text) (hcs : cs <:+ text) : Sound swaps cs where
  fits := h.fits.of_suffix hcs
  blocks := fun inside ds hds => h.blocks inside ds (hds.trans hcs)
  lines := fun inside ds hds => h.lines inside ds (hds.trans hcs)

/-- Whether a site of the new text is one of the old text with the value that is put there. -/
structure Site.Follows (swaps : Nat → Option Swap) (s s' : Site) : Prop where
  comment : s'.comment = s.comment
  name : s'.name = s.name
  fromValue : s'.fromValue = putValue swaps s.fromValue
  value : Renewed swaps s.fromValue.length s.value s'.value
  rest : s'.rest = exchange swaps s.rest

/-- Whether a search finds in the new text what it finds in the old one. -/
structure Refinds (swaps : Nat → Option Swap) (old new : Option Site) : Prop where
  none : old = none → new = none
  some : ∀ s, old = some s → Alone swaps s.fromValue → ∃ s', new = some s' ∧ s.Follows swaps s'

theorem refinds_none : Refinds swaps none none :=
  ⟨fun _ => rfl, fun _ h => by cases h⟩

theorem refinds_plainDefine? (h : Sound swaps cs) (comment : List String) :
    Refinds swaps (plainDefine? comment cs) (plainDefine? comment (exchange swaps cs)) := by
  unfold plainDefine?
  rw [defineHead?_exchange h.fits]
  cases hhead : defineHead? cs with
  | none => exact refinds_none
  | some found =>
      obtain ⟨name, fromValue⟩ := found
      refine ⟨(fun h => by cases h), fun s hs halone => ?_⟩
      obtain rfl := Option.some.inj hs
      obtain ⟨hvalue, hrest⟩ := plainValue_putValue
        (fun s hs => h.fits cs name fromValue s (List.suffix_refl _) hhead hs) halone
      exact ⟨_, rfl, rfl, rfl, rfl, hvalue, hrest⟩

theorem refinds_block (h : Sound swaps cs) (atLineStart : Bool) :
    Refinds swaps (Style.block.site? atLineStart cs)
      (Style.block.site? atLineStart (exchange swaps cs)) := by
  obtain ⟨hnew, hkept⟩ := blockBody?_exchange h.blocks
  simp only [Style.site?]
  rw [hnew]
  cases hbody : blockBody? cs with
  | none => exact refinds_none
  | some found =>
      obtain ⟨body, rest⟩ := found
      obtain ⟨block, rfl, -⟩ := hkept body rest hbody
      have htrim : trimStart (exchange swaps rest) = exchange swaps (trimStart rest) :=
        dropWhile_exchange (by decide) rest
      dsimp only [Option.map_some]
      rw [htrim]
      refine refinds_plainDefine? (h.of_suffix ?_) _
      exact (dropWhile_suffix _ rest).trans (List.suffix_append block rest)

theorem LinesEnded.inside (h : LinesEnded swaps cs) {inside : List Char}
    (hinside : dropPrefix? ['/', '/', '/'] (cs.dropWhile isInlineBlank) = some inside) :
    LinesEnded swaps (['/', '/', '/'] ++ inside) := by
  have hsuffix := dropWhile_suffix isInlineBlank cs
  rw [dropPrefix?_eq_some_iff.1 hinside] at hsuffix
  exact fun before ds hds => h before ds (hds.trans hsuffix)

theorem refinds_line (h : Sound swaps cs) :
    Refinds swaps (Style.line.site? true cs) (Style.line.site? true (exchange swaps cs)) := by
  simp only [Style.site?]
  rw [dropWhile_exchange (by decide), dropPrefix?_exchange (by decide)]
  cases hinside : dropPrefix? ['/', '/', '/'] (cs.dropWhile isInlineBlank) with
  | none => exact refinds_none
  | some inside =>
      obtain ⟨htake, hdrop, -⟩ := takeWhile_lineFeed_exchange (h.lines.inside hinside)
      dsimp only [Option.map_some]
      rw [htake, hdrop]
      have hrest := dropWhile_suffix (· ≠ '\n') inside
      cases hnext : inside.dropWhile (· ≠ '\n') with
      | nil =>
          rw [exchange_nil]
          exact refinds_none
      | cons c next =>
          have hc : c = '\n' := followsLine_dropWhile inside c (by rw [hnext]; rfl)
          rw [exchange_cons_of_ne_sign (by rw [hc]; decide)]
          dsimp only
          split
          · rw [dropWhile_exchange (by decide)]
            refine refinds_plainDefine? (h.of_suffix ?_) _
            rw [hnext] at hrest
            exact (((dropWhile_suffix _ next).trans (List.suffix_cons c next)).trans hrest).trans
              (suffix_of_dropPrefix? hinside)
          · exact refinds_none

theorem refinds_trailing (h : Sound swaps cs) :
    Refinds swaps (Style.trailing.site? true cs)
      (Style.trailing.site? true (exchange swaps cs)) := by
  have hvisible := dropWhile_suffix isInlineBlank cs
  have hfits := h.fits.of_suffix hvisible
  simp only [Style.site?]
  rw [dropWhile_exchange (by decide), defineHead?_exchange hfits]
  cases hhead : defineHead? (cs.dropWhile isInlineBlank) with
  | none => exact refinds_none
  | some found =>
      obtain ⟨name, fromValue⟩ := found
      obtain ⟨front, -, hsplit, -⟩ := defineHead?_eq_some_iff.1 hhead
      have hfit := fun s => hfits _ name fromValue s (List.suffix_refl _) hhead
      dsimp only [Option.map_some]
      cases hmark : valueBeforeMark? fromValue with
      | none =>
          have hsame := isSome_valueBeforeMark?_putValue
            (hfits.of_suffix (hsplit ▸ List.suffix_append front fromValue)) hfit
          rw [hmark, Option.isSome_none, Option.isSome_eq_false_iff, Option.isNone_iff_eq_none]
            at hsame
          rw [hsame]
          exact refinds_none
      | some found =>
          obtain ⟨value, inside⟩ := found
          refine ⟨(fun h => by cases h), fun s hs halone => ?_⟩
          obtain rfl := Option.some.inj hs
          obtain ⟨value', hnew, hvalue, htake, hdrop⟩ := valueBeforeMark?_putValue hfit halone hmark
          rw [hnew]
          refine ⟨_, rfl, ?_, rfl, rfl, hvalue, hdrop⟩
          dsimp only
          rw [htake]

/-- Each style finds in the new text what it finds in the old one. -/
theorem refinds_site? (h : Sound swaps cs) (style : Style) (atLineStart : Bool) :
    Refinds swaps (style.site? atLineStart cs) (style.site? atLineStart (exchange swaps cs)) := by
  cases style with
  | block => exact refinds_block h atLineStart
  | line =>
      cases atLineStart with
      | true => exact refinds_line h
      | false => exact refinds_none
  | trailing =>
      cases atLineStart with
      | true => exact refinds_trailing h
      | false => exact refinds_none

theorem exists_head_of_block (h : Sound swaps cs) {atLineStart : Bool} {s : Site}
    (hsite : Style.block.site? atLineStart cs = some s) :
    ∃ front head, cs = front ++ head ∧ Untouched swaps front head
      ∧ defineHead? head = some (s.name, s.fromValue) := by
  obtain ⟨body, rest, hbody, hdefine⟩ := Style.block_site?_eq_some_iff.1 hsite
  obtain ⟨found, hhead, rfl⟩ := Option.map_eq_some_iff.1 hdefine
  obtain ⟨block, rfl, hkept⟩ := (blockBody?_exchange h.blocks).2 body rest hbody
  refine ⟨block ++ rest.takeWhile isBlank, trimStart rest, ?_, ?_, hhead⟩
  · rw [List.append_assoc, trimStart, List.takeWhile_append_dropWhile]
  · have hgap := sign_not_mem_takeWhile (p := isBlank) (by decide) rest
    refine untouched_append.2 ⟨?_, untouched_of_not_mem hgap _⟩
    rwa [trimStart, List.takeWhile_append_dropWhile]

theorem exists_head_of_line (h : Sound swaps cs) {atLineStart : Bool} {s : Site}
    (hsite : Style.line.site? atLineStart cs = some s) :
    ∃ front head, cs = front ++ head ∧ Untouched swaps front head
      ∧ defineHead? head = some (s.name, s.fromValue) := by
  obtain ⟨-, inside, c, next, hinside, hnext, -, hdefine⟩ := Style.line_site?_eq_some_iff.1 hsite
  obtain ⟨found, hhead, rfl⟩ := Option.map_eq_some_iff.1 hdefine
  obtain ⟨-, -, hkept⟩ := takeWhile_lineFeed_exchange (h.lines.inside hinside)
  have hgap := sign_not_mem_takeWhile (p := isInlineBlank) (by decide)
  have hsplit := List.takeWhile_append_dropWhile (p := (· ≠ '\n')) (l := inside)
  have hc : c = '\n' := followsLine_dropWhile inside c (by rw [hnext]; rfl)
  rw [hnext] at hkept hsplit
  have hnextsplit := List.takeWhile_append_dropWhile (p := isInlineBlank) (l := next)
  refine ⟨cs.takeWhile isInlineBlank ++ (['/', '/', '/'] ++ (inside.takeWhile (· ≠ '\n')
    ++ ([c] ++ next.takeWhile isInlineBlank))), _, ?_, ?_, hhead⟩
  · simp only [List.append_assoc]
    rw [hnextsplit, List.singleton_append, hsplit, ← dropPrefix?_eq_some_iff.1 hinside,
      List.takeWhile_append_dropWhile]
  · refine untouched_append.2 ⟨untouched_of_not_mem (hgap cs) _, ?_⟩
    refine untouched_append.2 ⟨untouched_of_not_mem (by decide) _, ?_⟩
    refine untouched_append.2 ⟨?_, untouched_of_not_mem ?_ _⟩
    · rwa [List.append_assoc, hnextsplit]
    · rw [hc]
      simpa using hgap next

theorem exists_head_of_trailing {atLineStart : Bool} {s : Site}
    (hsite : Style.trailing.site? atLineStart cs = some s) :
    ∃ front head, cs = front ++ head ∧ Untouched swaps front head
      ∧ defineHead? head = some (s.name, s.fromValue) := by
  obtain ⟨-, name, fromValue, value, inside, hhead, -, rfl⟩ :=
    Style.trailing_site?_eq_some_iff.1 hsite
  exact ⟨cs.takeWhile isInlineBlank, _, List.takeWhile_append_dropWhile.symm,
    untouched_of_not_mem (sign_not_mem_takeWhile (by decide) cs) _, hhead⟩

/-- Nothing is exchanged from the beginning of a site to its head. -/
theorem exists_head_of_site? (h : Sound swaps cs) {style : Style} {atLineStart : Bool} {s : Site}
    (hsite : style.site? atLineStart cs = some s) :
    ∃ front head, cs = front ++ head ∧ Untouched swaps front head
      ∧ defineHead? head = some (s.name, s.fromValue) := by
  cases style with
  | block => exact exists_head_of_block h hsite
  | line => exact exists_head_of_line h hsite
  | trailing => exact exists_head_of_trailing hsite

/-! ## Following a style -/

theorem sites_of_some {style : Style} {atLineStart : Bool} {c : Char} {s : Site}
    (h : style.site? atLineStart (c :: cs) = some s) :
    style.sites atLineStart (c :: cs) = (c :: cs, s) :: style.sites false s.rest := by
  rw [Style.sites]
  split
  · next s' hs' =>
    rw [h, Option.some.injEq] at hs'
    rw [hs']
  · next hnone =>
    rw [h] at hnone
    cases hnone

theorem sites_of_none {style : Style} {atLineStart : Bool} {c : Char}
    (h : style.site? atLineStart (c :: cs) = none) :
    style.sites atLineStart (c :: cs) = style.sites (startsLine c cs) cs := by
  rw [Style.sites]
  split
  · next s hs =>
    rw [h] at hs
    cases hs
  · rfl

/-- A style finds nothing within a line in which no comment opens. -/
theorem sites_append_of_isPlain {value post : List Char} (h : IsPlain value post) (style : Style) :
    style.sites false (value ++ post) = style.sites false post := by
  induction value with
  | nil => rfl
  | cons c value ih =>
      have hopens := h.comment (c :: value) (List.suffix_refl _) (by simp)
      have hnone : style.site? false (c :: (value ++ post)) = none := by
        cases style with
        | block =>
            have hblock : blockBody? (c :: (value ++ post)) = none := by
              have hopen : dropPrefix? ['/', '*', '*'] (c :: (value ++ post)) = none := by
                rw [opensComment, Bool.or_eq_false_iff, Option.isSome_eq_false_iff,
                  Option.isSome_eq_false_iff] at hopens
                exact Option.isNone_iff_eq_none.1 hopens.2
              rw [blockBody?, hopen]
            rw [Style.site?, hblock]
        | line => rfl
        | trailing => rfl
      have hc := h.line c List.mem_cons_self
      have hstart : startsLine c (value ++ post) = false := by
        simp only [isLineEnd, Bool.or_eq_false_iff] at hc
        simp [startsLine, hc.1, hc.2]
      rw [List.cons_append, sites_of_none hnone, hstart]
      exact ih (h.of_suffix (List.suffix_cons c value))

/-- A style that finds nothing at a head goes on behind the value if no comment opens in that. -/
theorem sites_head_append {style : Style} {atLineStart : Bool} {front name value post : List Char}
    (hfront : IsHead front name) (hvalue : IsPlain value post)
    (hnone : style.site? atLineStart (front ++ (value ++ post)) = none) :
    style.sites atLineStart (front ++ (value ++ post)) = style.sites false post := by
  have hplain := hfront.isPlain (value ++ post)
  obtain ⟨tail, rfl, -⟩ := hfront.eq_cons
  have hstart : startsLine '#' (tail ++ (value ++ post)) = false := rfl
  rw [List.cons_append] at hnone ⊢
  rw [sites_of_none hnone, hstart,
    sites_append_of_isPlain (hplain.of_suffix (List.suffix_cons '#' tail)),
    sites_append_of_isPlain hvalue]

/-- Where a style finds nothing at an exchanged value's head, it goes on behind the value in either
text. -/
theorem exists_sites_behind {style : Style} {atLineStart : Bool} (h : Sound swaps text)
    (hswapped : Swapped swaps text) (hold : style.site? atLineStart text = none)
    (hnew : style.site? atLineStart (exchange swaps text) = none) :
    ∃ post, post <:+ text ∧ post.length < text.length
      ∧ style.sites atLineStart text = style.sites false post
      ∧ style.sites atLineStart (exchange swaps text) = style.sites false (exchange swaps post) := by
  obtain ⟨front, name, post, s, hsplit, hfront, -, -, hfit, hexchanged⟩ := hswapped.split h.fits
  refine ⟨post, ?_, ?_, ?_, ?_⟩
  · rw [hsplit]
    exact (List.suffix_append s.old post).trans (List.suffix_append _ _)
  · obtain ⟨tail, rfl, -⟩ := hfront.eq_cons
    rw [hsplit]
    simp only [List.length_append, List.length_cons]
    omega
  · rw [hsplit] at hold ⊢
    exact sites_head_append hfront hfit.plain_old hold
  · rw [hexchanged] at hnew ⊢
    exact sites_head_append hfront hfit.plain_new.exchange hnew

/-- A style finds in the new text what it finds in the old one, place by place. -/
theorem sites_exchange {style : Style} {atLineStart : Bool} (h : Sound swaps text)
    (halone : ∀ x ∈ style.sites atLineStart text, Alone swaps x.2.fromValue) :
    List.Forall₂ (fun x x' => x'.1 = exchange swaps x.1 ∧ x.2.Follows swaps x'.2)
      (style.sites atLineStart text) (style.sites atLineStart (exchange swaps text)) := by
  induction hn : text.length using Nat.strong_induction_on generalizing text atLineStart with
  | _ n ih =>
    cases text with
    | nil =>
        rw [exchange_nil, Style.sites]
        exact .nil
    | cons c cs =>
        have hrefinds := refinds_site? h style atLineStart
        cases hsite : style.site? atLineStart (c :: cs) with
        | some s =>
            rw [sites_of_some hsite] at halone ⊢
            obtain ⟨s', hs', hfollows⟩ := hrefinds.some s hsite (halone _ List.mem_cons_self)
            obtain ⟨ds, hds⟩ := exists_exchange_cons swaps c cs
            rw [hds] at hs'
            rw [hds, sites_of_some hs', hfollows.rest]
            refine .cons ⟨hds.symm, hfollows⟩ ?_
            have hrest : s.rest <:+ c :: cs := by
              obtain ⟨lead, head, post, hat⟩ := (siteAt_of_site? hsite).1
              exact hat.rest_suffix
            have hshorter := Style.site?_length hsite
            exact ih s.rest.length (by omega) (h.of_suffix hrest)
              (fun x hx => halone x (List.mem_cons_of_mem _ hx)) rfl
        | none =>
            have hnone := hrefinds.none hsite
            by_cases hswapped : Swapped swaps (c :: cs)
            · obtain ⟨post, hpost, hlen, hbehind, hbehind'⟩ :=
                exists_sites_behind h hswapped hsite hnone
              rw [hbehind] at halone ⊢
              rw [hbehind']
              exact ih post.length (by omega) (h.of_suffix hpost) halone rfl
            · rw [exchange_cons hswapped] at hnone ⊢
              have hstart : startsLine c (exchange swaps cs) = startsLine c cs := by
                rw [startsLine, startsLine, head?_exchange]
              rw [sites_of_none hsite] at halone ⊢
              rw [sites_of_none hnone, hstart]
              exact ih cs.length (by rw [List.length_cons] at hn; omega)
                (h.of_suffix (List.suffix_cons c cs)) halone rfl

end Configurator.Comment
