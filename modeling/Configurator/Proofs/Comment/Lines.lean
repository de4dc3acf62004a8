import Configurator.Proofs.Comment.Exchange

/-!
# Reading a line

From a value on, a define is read from the rest of its line. What is read from a line does not depend
on what follows it, and what is left then is an end of the line in front of what follows. So a define
that is alone on its line is read from the new text as from the old one, its value aside
(`plainValue_putValue`, `valueBeforeMark?_putValue`).
-/

namespace Configurator.Comment

open Text

/-! ## What follows a line -/

/-- Whether a text can follow a line: it is empty or begins with a line feed. -/
def FollowsLine (post : List Char) : Prop :=
  ∀ c ∈ post.head?, c = '\n'

theorem followsLine_dropWhile (cs : List Char) : FollowsLine (cs.dropWhile (· ≠ '\n')) := by
  intro c hc
  have hnot := List.head?_dropWhile_not (· ≠ '\n') cs
  rw [Option.mem_def.1 hc] at hnot
  simpa using hnot

variable {line post : List Char}

theorem FollowsLine.cases (h : FollowsLine post) : post = [] ∨ ∃ rest, post = '\n' :: rest := by
  cases post with
  | nil => exact .inl rfl
  | cons c rest =>
      obtain rfl := h c rfl
      exact .inr ⟨rest, rfl⟩

theorem dropWhile_append_line {p : Char → Bool} (hp : p '\n' = false) (hpost : FollowsLine post)
    (line : List Char) : (line ++ post).dropWhile p = line.dropWhile p ++ post := by
  induction line with
  | nil =>
      rcases hpost.cases with rfl | ⟨rest, rfl⟩
      · rfl
      · exact List.dropWhile_cons_of_neg (by simp [hp])
  | cons c line ih =>
      cases hc : p c with
      | true =>
          rw [List.cons_append, List.dropWhile_cons_of_pos hc, List.dropWhile_cons_of_pos hc, ih]
      | false =>
          rw [List.cons_append, List.dropWhile_cons_of_neg (by simp [hc]),
            List.dropWhile_cons_of_neg (by simp [hc]), List.cons_append]

theorem takeWhile_append_line {p : Char → Bool} (hp : p '\n' = false) (hpost : FollowsLine post)
    (line : List Char) : (line ++ post).takeWhile p = line.takeWhile p := by
  have hsplit := List.takeWhile_append_dropWhile (p := p) (l := line ++ post)
  rw [dropWhile_append_line hp hpost, ← List.append_assoc] at hsplit
  have hline := List.append_cancel_right hsplit
  refine List.append_cancel_right (hline.trans ?_)
  exact List.takeWhile_append_dropWhile.symm

theorem dropPrefix?_append_line {start : List Char} (hstart : '\n' ∉ start)
    (hpost : FollowsLine post) (line : List Char) :
    dropPrefix? start (line ++ post) = (dropPrefix? start line).map (· ++ post) := by
  induction start generalizing line with
  | nil => rfl
  | cons s start ih =>
      have hs : s ≠ '\n' := fun heq => hstart (heq ▸ List.mem_cons_self)
      cases line with
      | nil =>
          rcases hpost.cases with rfl | ⟨rest, rfl⟩
          · rfl
          · exact if_neg hs
      | cons c line =>
          rw [List.cons_append, dropPrefix?, dropPrefix?]
          split
          · exact ih (fun hmem => hstart (List.mem_cons_of_mem s hmem)) line
          · rfl

theorem endsValue_append_line (hpost : FollowsLine post) (line : List Char) :
    endsValue (line ++ post) = endsValue line := by
  match line with
  | [] =>
      rcases hpost.cases with rfl | ⟨rest, rfl⟩
      · rfl
      · rfl
  | [c] =>
      rw [Bool.eq_iff_iff, List.singleton_append, endsValue_cons, endsValue_cons]
      refine or_congr_right (and_congr_right fun _ => ⟨fun hhead => ?_, fun hhead => ?_⟩)
      · exact absurd (hpost '/' hhead) (by decide)
      · cases hhead
  | c :: d :: line =>
      rw [Bool.eq_iff_iff, List.cons_append, endsValue_cons, endsValue_cons]
      rfl

theorem plainValue_append_line (hpost : FollowsLine post) (line : List Char) :
    plainValue (line ++ post) = ((plainValue line).1, (plainValue line).2 ++ post) := by
  induction line with
  | nil =>
      rcases hpost.cases with rfl | ⟨rest, rfl⟩
      · rfl
      · rfl
  | cons c line ih =>
      have hends := endsValue_append_line hpost ((c :: line).dropWhile isInlineBlank)
      rw [← dropWhile_append_line (by decide) hpost, List.cons_append] at hends
      rw [List.cons_append, plainValue, plainValue, hends]
      split
      · rfl
      · rw [ih]

theorem valueBeforeMark?_append_line (hline : '\n' ∉ line) (hpost : FollowsLine post) :
    valueBeforeMark? (line ++ post)
      = (valueBeforeMark? line).map fun (value, inside) => (value, inside ++ post) := by
  induction line with
  | nil =>
      rcases hpost.cases with rfl | ⟨rest, rfl⟩
      · rfl
      · rfl
  | cons c line ih =>
      have hc : c ≠ '\n' := fun heq => hline (heq ▸ List.mem_cons_self)
      have hmark : dropPrefix? trailingMark ((c :: line).dropWhile isInlineBlank ++ post)
          = (dropPrefix? trailingMark ((c :: line).dropWhile isInlineBlank)).map (· ++ post) :=
        dropPrefix?_append_line (by decide) hpost _
      rw [← dropWhile_append_line (by decide) hpost, List.cons_append] at hmark
      rw [List.cons_append, valueBeforeMark?, valueBeforeMark?, hmark]
      cases dropPrefix? trailingMark ((c :: line).dropWhile isInlineBlank) with
      | some inside => rfl
      | none =>
          dsimp only [Option.map_none]
          rw [if_neg hc, if_neg hc, ih fun hmem => hline (List.mem_cons_of_mem c hmem),
            Option.map_map, Option.map_map]
          rfl

theorem skipLine_cons {c : Char} {cs : List Char} (hc : c ≠ '\n')
    (hr : c = '\r' → cs.head? ≠ some '\n') : skipLine (c :: cs) = skipLine cs := by
  rw [skipLine]
  · exact hc
  · rintro rest rfl rfl
    exact hr rfl rfl

/-- Skipping the rest of a line leaves at most the carriage return of the line end. -/
theorem skipLine_append_line {post' : List Char} (hline : '\n' ∉ line) (hpost : FollowsLine post)
    (hpost' : FollowsLine post') (hhead : post'.head? = post.head?) :
    ∃ left, left <:+ line ∧ skipLine (line ++ post) = left ++ post
      ∧ skipLine (line ++ post') = left ++ post' := by
  have hnil : ∀ {post : List Char}, FollowsLine post → skipLine post = post := by
    intro post hpost
    rcases hpost.cases with rfl | ⟨rest, rfl⟩
    · rfl
    · rw [skipLine]
  induction line with
  | nil => exact ⟨[], List.suffix_refl _, hnil hpost, hnil hpost'⟩
  | cons c line ih =>
      have hc : c ≠ '\n' := fun heq => hline (heq ▸ List.mem_cons_self)
      have hrest : '\n' ∉ line := fun hmem => hline (List.mem_cons_of_mem c hmem)
      obtain ⟨left, hleft, hold, hnew⟩ := ih hrest
      have hsame : (line ++ post').head? = (line ++ post).head? := by
        rw [List.head?_append, List.head?_append, hhead]
      by_cases hr : c = '\r' ∧ (line ++ post).head? = some '\n'
      · obtain ⟨rfl, hnext⟩ := hr
        have hempty : line = [] := by
          cases line with
          | nil => rfl
          | cons d line =>
              obtain rfl := Option.some.inj hnext
              exact absurd List.mem_cons_self hrest
        subst hempty
        obtain ⟨rest, rfl⟩ := hpost.cases.resolve_left fun hnil => by simp [hnil] at hnext
        obtain ⟨rest', rfl⟩ := hpost'.cases.resolve_left fun hnil => by simp [hnil] at hhead
        exact ⟨['\r'], List.suffix_refl _, by simp [skipLine], by simp [skipLine]⟩
      · refine ⟨left, hleft.trans (List.suffix_cons c line), ?_, ?_⟩
        · rw [List.cons_append, skipLine_cons hc fun heq hnext => hr ⟨heq, hnext⟩, hold]
        · rw [List.cons_append, skipLine_cons hc fun heq hnext => hr ⟨heq, hsame ▸ hnext⟩, hnew]

theorem skipComment_dropWhile (cs : List Char) :
    skipComment (cs.dropWhile isInlineBlank) = skipComment cs := by
  unfold skipComment
  rw [List.dropWhile_idempotent]

theorem skipComment_eq (cs : List Char) :
    skipComment cs = ((dropPrefix? ['/', '/'] (cs.dropWhile isInlineBlank)).map skipLine).getD
      (cs.dropWhile isInlineBlank) := by
  unfold skipComment
  split
  · next rest heq =>
    rw [heq]
    rfl
  · next rest hne =>
    cases hinside : dropPrefix? ['/', '/'] (cs.dropWhile isInlineBlank) with
    | none => rfl
    | some inside => exact absurd (dropPrefix?_eq_some_iff.1 hinside) (hne inside)

theorem skipComment_append_line {post' : List Char} (hline : '\n' ∉ line)
    (hpost : FollowsLine post) (hpost' : FollowsLine post') (hhead : post'.head? = post.head?) :
    ∃ left, left <:+ line ∧ skipComment (line ++ post) = left ++ post
      ∧ skipComment (line ++ post') = left ++ post' := by
  have hmark : '\n' ∉ (['/', '/'] : List Char) := by decide
  rw [skipComment_eq, skipComment_eq, dropWhile_append_line (by decide) hpost,
    dropWhile_append_line (by decide) hpost', dropPrefix?_append_line hmark hpost,
    dropPrefix?_append_line hmark hpost']
  have hvisible := dropWhile_suffix isInlineBlank line
  cases hinside : dropPrefix? ['/', '/'] (line.dropWhile isInlineBlank) with
  | none => exact ⟨_, hvisible, rfl, rfl⟩
  | some inside =>
      have hsuffix : inside <:+ line := suffix_of_dropPrefix? hinside
      obtain ⟨left, hleft, hold, hnew⟩ :=
        skipLine_append_line (fun hmem => hline (hsuffix.subset hmem)) hpost hpost' hhead
      exact ⟨left, hleft.trans hsuffix, hold, hnew⟩

/-! ## Values in front of a text -/

theorem plainValue_of_reads {value post : List Char} (h : Style.block.Reads value post) :
    plainValue (value ++ post) = (value, post) := by
  induction value with
  | nil =>
      have hends := h.ends
      simp only [Style.endsAt] at hends
      cases post with
      | nil => rfl
      | cons c post => rw [List.nil_append, plainValue, if_pos hends]
  | cons c value ih =>
      have hruns := h.runs [] (c :: value) rfl (by simp)
      simp only [Style.endsAt, List.cons_append] at hruns
      have htail : Style.block.Reads value post :=
        ⟨h.ends, fun u t ht hne => h.runs (c :: u) t (congrArg (c :: ·) ht) hne⟩
      rw [List.cons_append, plainValue, hruns, ih htail]
      rfl

theorem IsPlain.of_suffix {value value' post : List Char} (h : IsPlain value post)
    (hsuffix : value' <:+ value) : IsPlain value' post :=
  ⟨fun c hc => h.line c (hsuffix.subset hc), fun t ht hne => h.comment t (ht.trans hsuffix) hne⟩

theorem IsPlain.not_mem_lineFeed {value post : List Char} (h : IsPlain value post) :
    '\n' ∉ value :=
  fun hmem => absurd (h.line '\n' hmem) (by decide)

theorem isPlain_nil (post : List Char) : IsPlain [] post :=
  ⟨by simp, fun _ ht hne => absurd (List.suffix_nil.1 ht) hne⟩

theorem IsPlain.no_mark {value post t : List Char} (h : IsPlain value post) (ht : t <:+ value)
    (hne : t ≠ []) : dropPrefix? trailingMark (t ++ post) = none := by
  have hopens := h.comment t ht hne
  by_contra hmark
  obtain ⟨rest, hrest⟩ := Option.ne_none_iff_exists'.1 hmark
  rw [dropPrefix?_eq_some_iff.1 hrest] at hopens
  exact absurd hopens (by simp [opensComment, trailingMark, dropPrefix?])

theorem IsHead.slash_not_mem {front name : List Char} (h : IsHead front name) : '/' ∉ front := by
  intro hmem
  obtain ⟨gap, gap', rfl, ⟨-, hblank⟩, ⟨-, hword⟩, -, hblank'⟩ := h
  simp only [List.mem_append] at hmem
  rcases hmem with ((hmem | hmem) | hmem) | hmem
  · exact absurd hmem (by decide)
  · exact absurd (hblank _ hmem) (by decide)
  · exact absurd (hword _ hmem) (by decide)
  · exact absurd (hblank' _ hmem) (by decide)

/-- No comment opens in a head. -/
theorem IsHead.isPlain {front name : List Char} (h : IsHead front name) (post : List Char) :
    IsPlain front post := by
  refine ⟨h.not_isLineEnd, fun t ht hne => ?_⟩
  obtain ⟨c, t, rfl⟩ := List.exists_cons_of_ne_nil hne
  have hc : c ≠ '/' := by
    rintro rfl
    exact h.slash_not_mem (ht.subset List.mem_cons_self)
  simp [opensComment, dropPrefix?, Ne.symm hc]

theorem IsTrimmed.dropWhile_ne_nil {value u t : List Char} (h : IsTrimmed value)
    (hsplit : value = u ++ t) (hne : t ≠ []) : t.dropWhile isInlineBlank ≠ [] := by
  intro hnil
  have hlast := h.last (u ++ t.dropLast) (t.getLast hne)
    (by rw [List.append_assoc, List.dropLast_concat_getLast, hsplit])
  rw [List.dropWhile_eq_nil_iff.1 hnil _ (List.getLast_mem hne)] at hlast
  cases hlast

/-- A trimmed value in which no comment opens is read up to its end. -/
theorem IsPlain.reads {value post : List Char} (h : IsPlain value post) (htrim : IsTrimmed value)
    (hends : endsValue (post.dropWhile isInlineBlank) = true) : Style.block.Reads value post := by
  refine ⟨hends, fun u t hsplit hne => ?_⟩
  obtain ⟨c, rest, hvisible⟩ := List.exists_cons_of_ne_nil (htrim.dropWhile_ne_nil hsplit hne)
  have hsuffix : c :: rest <:+ value := by
    rw [← hvisible, hsplit]
    exact (dropWhile_suffix _ t).trans (List.suffix_append u t)
  have hdrop : (t ++ post).dropWhile isInlineBlank = c :: rest ++ post := by
    rw [List.dropWhile_append, hvisible]
    rfl
  have hopens := h.comment _ hsuffix (by simp)
  by_contra hend
  rw [Style.endsAt, hdrop, Bool.not_eq_false, List.cons_append, endsValue_cons] at hend
  · rcases hend with hend | ⟨rfl, hslash⟩
    · rw [h.line c (hsuffix.subset List.mem_cons_self)] at hend
      cases hend
    · obtain ⟨rest', hrest'⟩ := List.head?_eq_some_iff.1 hslash
      rw [List.cons_append, hrest'] at hopens
      exact absurd hopens (by simp [opensComment, dropPrefix?])
  · decide

/-! ## Marks behind values -/

/-- A value in which no mark begins is part of what stands in front of a mark. -/
theorem valueBeforeMark?_append {value post : List Char} (h : IsPlain value post)
    (htrim : IsTrimmed value) :
    valueBeforeMark? (value ++ post)
      = (valueBeforeMark? post).map fun (before, inside) => (value ++ before, inside) := by
  suffices hsuffix : ∀ u t, value = u ++ t → valueBeforeMark? (t ++ post)
      = (valueBeforeMark? post).map fun (before, inside) => (t ++ before, inside) from
    hsuffix [] value rfl
  intro u t
  induction t generalizing u with
  | nil => intro _; simp
  | cons c t ih =>
      intro hsplit
      have hne := htrim.dropWhile_ne_nil hsplit (by simp)
      have hvisible : (c :: t).dropWhile isInlineBlank <:+ value := by
        rw [hsplit]
        exact (dropWhile_suffix _ _).trans (List.suffix_append u _)
      have hmark := h.no_mark hvisible hne
      have hdrop : (c :: (t ++ post)).dropWhile isInlineBlank
          = (c :: t).dropWhile isInlineBlank ++ post := by
        rw [← List.cons_append, List.dropWhile_append, if_neg (by simpa using hne)]
      have hc : c ≠ '\n' := by
        rintro rfl
        exact h.not_mem_lineFeed (by simp [hsplit])
      rw [List.cons_append, valueBeforeMark?, hdrop, hmark]
      dsimp only
      rw [if_neg hc, ih (u ++ [c]) (by simp [hsplit]), Option.map_map]
      rfl

theorem valueBeforeMark?_dropWhile {cs value inside : List Char}
    (h : valueBeforeMark? cs = some (value, inside)) :
    ∃ value', valueBeforeMark? (cs.dropWhile isInlineBlank) = some (value', inside)
      ∧ (value = [] → value' = []) := by
  induction cs generalizing value with
  | nil => cases h
  | cons c cs ih =>
      cases hc : isInlineBlank c with
      | false =>
          rw [List.dropWhile_cons_of_neg (by simp [hc])]
          exact ⟨value, h, id⟩
      | true =>
          rw [List.dropWhile_cons_of_pos hc]
          rw [valueBeforeMark?, List.dropWhile_cons_of_pos hc] at h
          split at h
          · next rest hrest =>
            obtain ⟨rfl, rfl⟩ := Prod.mk.inj (Option.some.inj h)
            refine ⟨[], ?_, fun _ => rfl⟩
            have hmark := dropPrefix?_eq_some_iff.1 hrest
            rw [hmark, trailingMark, List.cons_append, valueBeforeMark?]
            rfl
          · split at h
            · cases h
            · obtain ⟨⟨value', inside'⟩, hrec, heq⟩ := Option.map_eq_some_iff.1 h
              obtain ⟨rfl, rfl⟩ := Prod.mk.inj heq
              obtain ⟨found, hfound, -⟩ := ih hrec
              exact ⟨found, hfound, fun hnil => by cases hnil⟩

/-- A mark stands on a line if one begins the line or stands further on. -/
theorem isSome_valueBeforeMark?_cons (c : Char) (cs : List Char) :
    (valueBeforeMark? (c :: cs)).isSome
      = ((dropPrefix? trailingMark (c :: cs)).isSome
          || (c ≠ '\n' && (valueBeforeMark? cs).isSome)) := by
  rw [valueBeforeMark?]
  cases hc : isInlineBlank c with
  | false =>
      rw [List.dropWhile_cons_of_neg (by simp [hc])]
      cases dropPrefix? trailingMark (c :: cs) with
      | some rest => rfl
      | none => by_cases hend : c = '\n' <;> simp [hend]
  | true =>
      have hnone : dropPrefix? trailingMark (c :: cs) = none := by
        rcases eq_of_isInlineBlank hc with rfl | rfl <;> rfl
      have hend : c ≠ '\n' := by rcases eq_of_isInlineBlank hc with rfl | rfl <;> decide
      rw [List.dropWhile_cons_of_pos hc, hnone]
      cases hmark : dropPrefix? trailingMark (cs.dropWhile isInlineBlank) with
      | none => simp [hend]
      | some rest =>
          cases cs with
          | nil => cases hmark
          | cons d cs => simp [hend, valueBeforeMark?, hmark]

theorem isSome_valueBeforeMark?_append {value post : List Char} (h : IsPlain value post) :
    (valueBeforeMark? (value ++ post)).isSome = (valueBeforeMark? post).isSome := by
  induction value with
  | nil => rfl
  | cons c value ih =>
      have hmark := h.no_mark (List.suffix_refl _) (by simp)
      have hc : c ≠ '\n' := fun heq => h.not_mem_lineFeed (heq ▸ List.mem_cons_self)
      rw [List.cons_append] at hmark ⊢
      rw [isSome_valueBeforeMark?_cons, hmark, ih (h.of_suffix (List.suffix_cons c value))]
      simp [hc]

theorem isSome_valueBeforeMark?_dropWhile (cs : List Char) :
    (valueBeforeMark? (cs.dropWhile isInlineBlank)).isSome = (valueBeforeMark? cs).isSome := by
  induction cs with
  | nil => rfl
  | cons c cs ih =>
      cases hc : isInlineBlank c with
      | false => rw [List.dropWhile_cons_of_neg (by simp [hc])]
      | true =>
          rw [List.dropWhile_cons_of_pos hc, isSome_valueBeforeMark?_cons, ih]
          rcases eq_of_isInlineBlank hc with rfl | rfl <;> simp [dropPrefix?, trailingMark]

variable {swaps : Nat → Option Swap} {cs : List Char}

/-- An exchange neither makes marks nor takes them away. -/
theorem isSome_valueBeforeMark?_exchange (hfits : Fits swaps cs) :
    (valueBeforeMark? (exchange swaps cs)).isSome = (valueBeforeMark? cs).isSome := by
  refine hfits.induction (motive := fun cs =>
    (valueBeforeMark? (exchange swaps cs)).isSome = (valueBeforeMark? cs).isSome) ?nil ?keep ?swap
  case nil => rw [exchange_nil]
  case keep =>
      intro c cs _ hkept ih
      have hmark : (dropPrefix? trailingMark ([c] ++ exchange swaps cs)).isSome
          = (dropPrefix? trailingMark ([c] ++ cs)).isSome :=
        isSome_dropPrefix?_append_exchange (by decide) [c] cs
      simp only [List.singleton_append] at hmark
      rw [exchange_cons hkept, isSome_valueBeforeMark?_cons, isSome_valueBeforeMark?_cons, hmark, ih]
  case swap =>
      intro front name post s _ hfront htight hs hfit ih
      rw [exchange_head hfront htight hs, isSome_valueBeforeMark?_append (hfront.isPlain _),
        isSome_valueBeforeMark?_append (hfront.isPlain _),
        isSome_valueBeforeMark?_append hfit.plain_old,
        isSome_valueBeforeMark?_append hfit.plain_new.exchange, ih]

/-! ## Values of the new text -/

/-- Whether no other exchanged value stands on the rest of the line, from the place of a value on. -/
def Alone (swaps : Nat → Option Swap) (fromValue : List Char) : Prop :=
  Untouched swaps (fromValue.takeWhile (· ≠ '\n')) (fromValue.dropWhile (· ≠ '\n'))

/-- Blanks in front of a value that is empty are taken for the end of the head. -/
theorem exists_behind_new (swaps : Nat → Option Swap) {s : Swap} {post : List Char}
    (hfit : s.Fits post) :
    ∃ behind, (s.new ++ exchange swaps post).dropWhile isInlineBlank = s.new ++ behind
      ∧ behind.dropWhile isInlineBlank = (exchange swaps post).dropWhile isInlineBlank
      ∧ (s.new = [] ∧ behind = (exchange swaps post).dropWhile isInlineBlank
        ∨ behind = exchange swaps post)
      ∧ IsPlain s.new behind ∧ Style.block.Reads s.new behind := by
  have hends : endsValue ((exchange swaps post).dropWhile isInlineBlank) = true := by
    rw [dropWhile_exchange (by decide), endsValue_exchange]
    exact hfit.ends
  cases hnew : s.new with
  | nil =>
      refine ⟨_, rfl, List.dropWhile_idempotent _ _, .inl ⟨rfl, rfl⟩, isPlain_nil _, ?_, ?_⟩
      · rw [Style.endsAt, List.nil_append, List.dropWhile_idempotent]
        · exact hends
        · decide
      · exact fun u t ht hne => absurd (List.append_eq_nil_iff.1 ht.symm).2 hne
  | cons c new =>
      have htight := hfit.trimmed_new.tight
      rw [hnew] at htight
      rw [← hnew]
      refine ⟨exchange swaps post, ?_, rfl, .inr rfl, hfit.plain_new.exchange, ?_⟩
      · rw [hnew]
        exact isTight_cons.2 (isTight_cons.1 htight)
      · exact hfit.plain_new.exchange.reads hfit.trimmed_new hends

theorem isSome_valueBeforeMark?_putValue {fromValue : List Char} (hfits : Fits swaps fromValue)
    (hfit : ∀ s, swaps fromValue.length = some s → ∃ post, fromValue = s.old ++ post ∧ s.Fits post) :
    (valueBeforeMark? (putValue swaps fromValue)).isSome = (valueBeforeMark? fromValue).isSome := by
  cases hswap : swaps fromValue.length with
  | none => rw [putValue_of_none hswap, isSome_valueBeforeMark?_exchange hfits]
  | some s =>
      obtain ⟨post, rfl, hs⟩ := hfit s hswap
      obtain ⟨behind, hnew, hblanks, -, hplain, -⟩ := exists_behind_new swaps hs
      rw [putValue_of_some hswap, hnew, isSome_valueBeforeMark?_append hplain,
        isSome_valueBeforeMark?_append hs.plain_old, ← isSome_valueBeforeMark?_dropWhile, hblanks,
        isSome_valueBeforeMark?_dropWhile]
      exact isSome_valueBeforeMark?_exchange (hfits.of_suffix (List.suffix_append _ _))

/-- A line in which nothing is exchanged, and what follows it in the old and in the new text. -/
theorem Alone.split {fromValue : List Char} (h : Alone swaps fromValue) :
    ∃ line post, fromValue = line ++ post ∧ '\n' ∉ line ∧ FollowsLine post
      ∧ FollowsLine (exchange swaps post) ∧ Untouched swaps line post := by
  refine ⟨_, _, List.takeWhile_append_dropWhile.symm, fun hmem => ?_, followsLine_dropWhile _, ?_, h⟩
  · simpa using List.mem_takeWhile_imp hmem
  · intro c hc
    rw [head?_exchange] at hc
    exact followsLine_dropWhile _ c hc

theorem Alone.of_append {value post : List Char} (h : Alone swaps (value ++ post))
    (hvalue : '\n' ∉ value) : Alone swaps post := by
  have hall : ∀ c ∈ value, decide (c ≠ '\n') = true := by
    intro c hc
    rw [decide_eq_true_eq]
    rintro rfl
    exact hvalue hc
  unfold Alone at h
  rw [List.takeWhile_append_of_pos hall, List.dropWhile_append_of_pos hall] at h
  exact (untouched_append.1 h).2

/-- Whether a value that is read in a place of the new text is the one that is put there, or the old
one if none is. -/
def Renewed (swaps : Nat → Option Swap) (place : Nat) (value value' : List Char) : Prop :=
  (swaps place = none → value' = value)
    ∧ ∀ s, swaps place = some s → value = s.old → value' = s.new

theorem renewed_of_none {place : Nat} {value : List Char} (h : swaps place = none) :
    Renewed swaps place value value := by
  refine ⟨fun _ => rfl, fun s hs => ?_⟩
  rw [h] at hs
  cases hs

theorem renewed_of_some {place : Nat} {value value' : List Char} {s : Swap}
    (h : swaps place = some s) (hvalue : value = s.old → value' = s.new) :
    Renewed swaps place value value' := by
  refine ⟨fun hnone => ?_, fun s' hs' => ?_⟩
  · rw [h] at hnone
    cases hnone
  · rw [h, Option.some.injEq] at hs'
    subst hs'
    exact hvalue

theorem skipComment_exchange {line post : List Char} (hline : '\n' ∉ line)
    (hpost : FollowsLine post) (hpost' : FollowsLine (exchange swaps post))
    (hkept : Untouched swaps line post) :
    skipComment (line ++ exchange swaps post) = exchange swaps (skipComment (line ++ post)) := by
  obtain ⟨left, hleft, hold, hnew⟩ :=
    skipComment_append_line hline hpost hpost' (head?_exchange swaps post)
  rw [hold, hnew, exchange_append (hkept.of_suffix hleft)]

theorem dropWhile_exchange_line {p : Char → Bool} (hp : p '\n' = false) {line post : List Char}
    (hpost : FollowsLine post) (hpost' : FollowsLine (exchange swaps post))
    (hkept : Untouched swaps line post) :
    (exchange swaps (line ++ post)).dropWhile p = exchange swaps ((line ++ post).dropWhile p) := by
  rw [exchange_append hkept, dropWhile_append_line hp hpost, dropWhile_append_line hp hpost',
    exchange_append (hkept.of_suffix (dropWhile_suffix p line))]

theorem takeWhile_exchange_line {p : Char → Bool} (hp : p '\n' = false) {line post : List Char}
    (hpost : FollowsLine post) (hpost' : FollowsLine (exchange swaps post))
    (hkept : Untouched swaps line post) :
    (exchange swaps (line ++ post)).takeWhile p = (line ++ post).takeWhile p := by
  rw [exchange_append hkept, takeWhile_append_line hp hpost, takeWhile_append_line hp hpost']

/-- Where a plain value is read from the old text, its successor is read from the new one, and what is
left behind the line's comment corresponds. -/
theorem plainValue_putValue {fromValue : List Char}
    (hfits : ∀ s, swaps fromValue.length = some s → ∃ post, fromValue = s.old ++ post ∧ s.Fits post)
    (halone : Alone swaps fromValue) :
    Renewed swaps fromValue.length (plainValue fromValue).1 (plainValue (putValue swaps fromValue)).1
      ∧ skipComment (plainValue (putValue swaps fromValue)).2
          = exchange swaps (skipComment (plainValue fromValue).2) := by
  cases hswap : swaps fromValue.length with
  | none =>
      obtain ⟨line, post, rfl, hline, hpost, hpost', hkept⟩ := halone.split
      rw [putValue_of_none hswap, exchange_append hkept, plainValue_append_line hpost,
        plainValue_append_line hpost']
      have hleft : (plainValue line).2 <:+ line := ⟨(plainValue line).1, plainValue_append line⟩
      refine ⟨renewed_of_none hswap, ?_⟩
      exact skipComment_exchange (fun hmem => hline (hleft.subset hmem)) hpost hpost'
        (hkept.of_suffix hleft)
  | some s =>
      obtain ⟨behind, rfl, hfit⟩ := hfits s hswap
      obtain ⟨behind', hnew, hblanks, -, -, hreads'⟩ := exists_behind_new swaps hfit
      have hreads := hfit.plain_old.reads hfit.trimmed_old hfit.ends
      obtain ⟨line, post, rfl, hline, hpost, hpost', hkept⟩ :=
        (halone.of_append hfit.plain_old.not_mem_lineFeed).split
      rw [putValue_of_some hswap, hnew, plainValue_of_reads hreads, plainValue_of_reads hreads']
      refine ⟨renewed_of_some hswap fun _ => rfl, ?_⟩
      dsimp only
      rw [← skipComment_dropWhile behind', hblanks, skipComment_dropWhile, exchange_append hkept]
      exact skipComment_exchange hline hpost hpost' hkept

theorem valueBeforeMark?_suffix {cs value inside : List Char}
    (h : valueBeforeMark? cs = some (value, inside)) : inside <:+ cs := by
  obtain ⟨post, rfl, -, hinside⟩ := reads_valueBeforeMark? h
  exact (suffix_of_dropPrefix? hinside).trans (List.suffix_append value post)

/-- A mark on a line without an exchange is found in the new text, with the same in front of it. -/
theorem Alone.valueBeforeMark? {cs value inside : List Char} (h : Alone swaps cs)
    (hmark : valueBeforeMark? cs = some (value, inside)) :
    Comment.valueBeforeMark? (exchange swaps cs) = some (value, exchange swaps inside)
      ∧ ∃ line post, inside = line ++ post ∧ FollowsLine post ∧ FollowsLine (exchange swaps post)
        ∧ Untouched swaps line post := by
  obtain ⟨line, post, rfl, hline, hpost, hpost', hkept⟩ := h.split
  rw [valueBeforeMark?_append_line hline hpost] at hmark
  obtain ⟨⟨value', inside'⟩, hfound, heq⟩ := Option.map_eq_some_iff.1 hmark
  obtain ⟨rfl, rfl⟩ := Prod.mk.inj heq
  have hkept' := hkept.of_suffix (valueBeforeMark?_suffix hfound)
  rw [exchange_append hkept, valueBeforeMark?_append_line hline hpost', hfound,
    exchange_append hkept']
  exact ⟨rfl, inside', post, rfl, hpost, hpost', hkept'⟩

/-- Where a value in front of a mark is read from the old text, its successor is read from the new
one, and what the comment says stays. -/
theorem valueBeforeMark?_putValue {fromValue value inside : List Char}
    (hfits : ∀ s, swaps fromValue.length = some s → ∃ post, fromValue = s.old ++ post ∧ s.Fits post)
    (halone : Alone swaps fromValue)
    (hmark : valueBeforeMark? fromValue = some (value, inside)) :
    ∃ value', valueBeforeMark? (putValue swaps fromValue) = some (value', exchange swaps inside)
      ∧ Renewed swaps fromValue.length value value'
      ∧ (exchange swaps inside).takeWhile (!isLineEnd ·) = inside.takeWhile (!isLineEnd ·)
      ∧ (exchange swaps inside).dropWhile (!isLineEnd ·)
          = exchange swaps (inside.dropWhile (!isLineEnd ·)) := by
  cases hswap : swaps fromValue.length with
  | none =>
      obtain ⟨hnew, line, post, rfl, hpost, hpost', hkept⟩ := halone.valueBeforeMark? hmark
      rw [putValue_of_none hswap]
      exact ⟨value, hnew, renewed_of_none hswap,
        takeWhile_exchange_line (by decide) hpost hpost' hkept,
        dropWhile_exchange_line (by decide) hpost hpost' hkept⟩
  | some s =>
      obtain ⟨behind, rfl, hfit⟩ := hfits s hswap
      rw [valueBeforeMark?_append hfit.plain_old hfit.trimmed_old] at hmark
      obtain ⟨⟨before, inside'⟩, hfound, heq⟩ := Option.map_eq_some_iff.1 hmark
      obtain ⟨rfl, rfl⟩ := Prod.mk.inj heq
      obtain ⟨hkeeps, line, post, rfl, hpost, hpost', hkept⟩ :=
        (halone.of_append hfit.plain_old.not_mem_lineFeed).valueBeforeMark? hfound
      obtain ⟨behind', hnew, -, hbehind, -, -⟩ := exists_behind_new swaps hfit
      obtain ⟨before', hbefore', hempty⟩ : ∃ before',
          valueBeforeMark? (s.new ++ behind')
              = some (s.new ++ before', exchange swaps (line ++ post))
            ∧ (before = [] → before' = []) := by
        rcases hbehind with ⟨hnil, rfl⟩ | rfl
        · obtain ⟨before', hbefore', hempty⟩ := valueBeforeMark?_dropWhile hkeeps
          exact ⟨before', by rw [hnil, List.nil_append, List.nil_append, hbefore'], hempty⟩
        · refine ⟨before, ?_, id⟩
          rw [valueBeforeMark?_append hfit.plain_new.exchange hfit.trimmed_new, hkeeps]
          rfl
      rw [putValue_of_some hswap, hnew]
      refine ⟨_, hbefore', renewed_of_some hswap fun hvalue => ?_,
        takeWhile_exchange_line (by decide) hpost hpost' hkept,
        dropWhile_exchange_line (by decide) hpost hpost' hkept⟩
      rw [hempty (List.append_right_eq_self.1 hvalue), List.append_nil]

end Configurator.Comment
