import Configurator.Proofs.Comment.Rescan
import Mathlib.Data.List.Forall2

/-!
# The defines in their order

The sites of all styles are put in the order of the text, once by their values and once by where they
begin. An exchange keeps the order of all places outside of what is exchanged (`exchange_suffix`), and
sites begin in such places, as do their heads. So the documented defines of the new text are those of
the old one, in the same order and each with its new value (`documentedDefines_exchange`).
-/

namespace Configurator.Comment

open Text

/-! ## Lists side by side -/

section Lists

variable {α β : Type} {R : α → β → Prop} {xs : List α} {ys : List β}

theorem exists_pairs (h : List.Forall₂ R xs ys) :
    ∃ ps : List (α × β), ps.map Prod.fst = xs ∧ ps.map Prod.snd = ys ∧ ∀ p ∈ ps, R p.1 p.2 := by
  induction h with
  | nil => exact ⟨[], rfl, rfl, by simp⟩
  | @cons x y xs ys hxy _ ih =>
      obtain ⟨ps, rfl, rfl, hps⟩ := ih
      refine ⟨(x, y) :: ps, rfl, rfl, fun p hp => ?_⟩
      rcases List.mem_cons.1 hp with rfl | hp
      · exact hxy
      · exact hps p hp

/-- Lists that correspond still do when both are sorted, if the orders agree. -/
theorem forall₂_mergeSort {le : α → α → Bool} {le' : β → β → Bool} (h : List.Forall₂ R xs ys)
    (hle : ∀ x x' y y', R x y → R x' y' → le x x' = le' y y') :
    List.Forall₂ R (xs.mergeSort le) (ys.mergeSort le') := by
  obtain ⟨ps, rfl, rfl, hps⟩ := exists_pairs h
  have hfst : (ps.mergeSort fun p q => le p.1 q.1).map Prod.fst = (ps.map Prod.fst).mergeSort le :=
    List.map_mergeSort fun _ _ _ _ => rfl
  have hsnd : (ps.mergeSort fun p q => le p.1 q.1).map Prod.snd = (ps.map Prod.snd).mergeSort le' :=
    List.map_mergeSort fun p hp q hq => hle _ _ _ _ (hps p hp) (hps q hq)
  rw [← hfst, ← hsnd, List.forall₂_map_left_iff, List.forall₂_map_right_iff, List.forall₂_same]
  exact fun p hp => hps p (List.mem_mergeSort.1 hp)

end Lists

theorem forall₂_dropRepeated {R : Define → Define → Prop} {ds es : List Define}
    (h : List.Forall₂ R ds es) (hstart : ∀ d d' e e', R d e → R d' e' →
      (d.span.start = d'.span.start ↔ e.span.start = e'.span.start)) :
    List.Forall₂ R (dropRepeated ds) (dropRepeated es) := by
  fun_induction dropRepeated ds generalizing es with
  | case1 d d' ds heq ih =>
      obtain ⟨e, es, hd, hrest, rfl⟩ := List.forall₂_cons_left_iff.1 h
      obtain ⟨e', es, hd', hds, rfl⟩ := List.forall₂_cons_left_iff.1 hrest
      rw [dropRepeated, if_pos ((hstart _ _ _ _ hd hd').1 heq)]
      exact ih (.cons hd hds)
  | case2 d d' ds hne ih =>
      obtain ⟨e, es, hd, hrest, rfl⟩ := List.forall₂_cons_left_iff.1 h
      obtain ⟨e', es, hd', hds, rfl⟩ := List.forall₂_cons_left_iff.1 hrest
      rw [dropRepeated, if_neg fun heq => hne ((hstart _ _ _ _ hd hd').2 heq)]
      exact .cons hd (ih hrest)
  | case3 ds hshort =>
      cases h with
      | nil =>
          simp only [dropRepeated]
          exact .nil
      | @cons d e ds es hd hrest =>
          cases hrest with
          | nil =>
              simp only [dropRepeated]
              exact .cons hd .nil
          | @cons d' e' ds es hd' hds => exact absurd rfl (hshort d d' ds)

/-! ## The order of places -/

variable {swaps : Nat → Option Swap} {text cs ds : List Char}

/-- Whether a stretch in front of a text is the head and the value of an exchange. -/
def Taken (swaps : Nat → Option Swap) (part post : List Char) : Prop :=
  ∃ front name s, part = front ++ s.old ∧ IsHead front name ∧ IsTight (s.old ++ post)
    ∧ swaps (s.old ++ post).length = some s

theorem Taken.swapped {part post : List Char} (h : Taken swaps part post) :
    Swapped swaps (part ++ post) := by
  obtain ⟨front, name, s, rfl, hfront, htight, hs⟩ := h
  exact ⟨name, _, s, defineHead?_eq_some_iff.2 ⟨front, hfront, List.append_assoc _ _ _, htight⟩, hs⟩

/-- No comment opens in the head and the value of an exchange. -/
theorem Taken.isPlain {part post : List Char} (h : Taken swaps part post)
    (hfits : Fits swaps (part ++ post)) : IsPlain part post := by
  have hswapped := h.swapped
  obtain ⟨front, name, s, rfl, hfront, htight, hs⟩ := h
  rw [List.append_assoc] at hfits hswapped
  have hhead : defineHead? (front ++ (s.old ++ post)) = some (name, s.old ++ post) :=
    defineHead?_eq_some_iff.2 ⟨front, hfront, rfl, htight⟩
  obtain ⟨post', hpost, hfit⟩ := hfits _ name _ s (List.suffix_refl _) hhead hs
  obtain rfl := List.append_cancel_left hpost
  have hplain := hfront.isPlain (s.old ++ post)
  refine ⟨fun c hc => ?_, fun t ht hne => ?_⟩
  · rcases List.mem_append.1 hc with hc | hc
    · exact hplain.line c hc
    · exact hfit.plain_old.line c hc
  · rcases Nat.lt_or_ge s.old.length t.length with hlong | hshort
    · obtain ⟨u, hu⟩ := List.suffix_of_suffix_length_le (List.suffix_append front s.old) ht
        (Nat.le_of_lt hlong)
      rw [← hu, List.append_assoc]
      refine hplain.comment u ?_ ?_
      · rw [← hu] at ht
        exact (List.suffix_append_inj_of_length_eq rfl).1 ht |>.1
      · rintro rfl
        rw [← hu, List.nil_append] at hlong
        exact absurd hlong (Nat.lt_irrefl _)
    · exact hfit.plain_old.comment t
        (List.suffix_of_suffix_length_le ht (List.suffix_append front s.old) hshort) hne

/-- Whether a place is neither within the head nor within the value of an exchange. -/
def Clear (swaps : Nat → Option Swap) (text cs : List Char) : Prop :=
  ∀ part post, part ++ post <:+ text → Taken swaps part post → post.length < cs.length →
    part.length + post.length ≤ cs.length

/-- A clear place behind the beginning of an exchange is behind its value. -/
theorem Clear.suffix_of_taken {part post : List Char} (hclear : Clear swaps (part ++ post) cs)
    (htaken : Taken swaps part post) (hcs : cs <:+ part ++ post)
    (hlt : cs.length < (part ++ post).length) : cs <:+ post := by
  refine List.suffix_of_suffix_length_le hcs (List.suffix_append part post) ?_
  by_contra hgt
  have hle := hclear part post (List.suffix_refl _) htaken (by omega)
  rw [List.length_append] at hlt
  omega

/-- A place of the rest of a text is one of the new text if the new text ends with the new rest. -/
theorem exchange_suffix_of_rest {rest new : List Char} (hcs : cs <:+ rest)
    (hnew : exchange swaps rest <:+ new) (hlonger : (exchange swaps rest).length < new.length)
    (hrest : cs.length < rest.length → exchange swaps cs <:+ exchange swaps rest
      ∧ (exchange swaps cs).length < (exchange swaps rest).length) :
    exchange swaps cs <:+ new ∧ (exchange swaps cs).length < new.length := by
  rcases Nat.lt_or_ge cs.length rest.length with hlt | hge
  · obtain ⟨hsuffix, hlen⟩ := hrest hlt
    exact ⟨hsuffix.trans hnew, hlen.trans hlonger⟩
  · obtain rfl := eq_of_length_eq hcs (List.suffix_refl rest) (Nat.le_antisymm hcs.length_le hge)
    exact ⟨hnew, hlonger⟩

/-- Clear places of the old text are places of the new one, in the same order. -/
theorem exchange_suffix (hfits : Fits swaps text) :
    cs <:+ text → Clear swaps text cs → cs.length < text.length →
      exchange swaps cs <:+ exchange swaps text
        ∧ (exchange swaps cs).length < (exchange swaps text).length := by
  refine hfits.induction (motive := fun text => cs <:+ text → Clear swaps text cs →
    cs.length < text.length → exchange swaps cs <:+ exchange swaps text
      ∧ (exchange swaps cs).length < (exchange swaps text).length) ?nil ?keep ?swap
  case nil =>
      intro _ _ hlt
      exact absurd hlt (Nat.not_lt_zero _)
  case keep =>
      intro c text _ hkept ih hcs hclear hlt
      have hcs' : cs <:+ text := (List.suffix_cons_iff.1 hcs).resolve_left fun heq => by
        rw [heq] at hlt
        exact absurd hlt (Nat.lt_irrefl _)
      rw [exchange_cons hkept]
      exact exchange_suffix_of_rest hcs' (List.suffix_cons c _) (Nat.lt_succ_self _)
        (ih hcs' fun part post hpart => hclear part post (hpart.trans (List.suffix_cons c text)))
  case swap =>
      intro front name post s _ hfront htight hs hfit ih hcs hclear hlt
      have hpost : post <:+ front ++ (s.old ++ post) :=
        (List.suffix_append s.old post).trans (List.suffix_append front _)
      have hcs' : cs <:+ post := by
        rw [← List.append_assoc] at hcs hclear hlt
        exact hclear.suffix_of_taken ⟨front, name, s, rfl, hfront, htight, hs⟩ hcs hlt
      have hnew : exchange swaps post <:+ front ++ (s.new ++ exchange swaps post) :=
        (List.suffix_append s.new _).trans (List.suffix_append front _)
      have hlonger : (exchange swaps post).length
          < (front ++ (s.new ++ exchange swaps post)).length := by
        obtain ⟨tail, rfl, -⟩ := hfront.eq_cons
        simp only [List.length_append, List.length_cons]
        omega
      rw [exchange_head hfront htight hs]
      exact exchange_suffix_of_rest hcs' hnew hlonger
        (ih hcs' fun part post' hpart => hclear part post' (hpart.trans hpost))

theorem Clear.of_suffix (h : Clear swaps text cs) (hds : ds <:+ text) : Clear swaps ds cs :=
  fun part post hpart => h part post (hpart.trans hds)

theorem exchange_suffix_text (hfits : Fits swaps text) (hcs : cs <:+ text)
    (hclear : Clear swaps text cs) : exchange swaps cs <:+ exchange swaps text := by
  rcases Nat.lt_or_ge cs.length text.length with hlt | hge
  · exact (exchange_suffix hfits hcs hclear hlt).1
  · obtain rfl := eq_of_length_eq hcs (List.suffix_refl text) (Nat.le_antisymm hcs.length_le hge)
    exact List.suffix_refl _

theorem length_exchange_lt_iff (hfits : Fits swaps text) (hcs : cs <:+ text) (hds : ds <:+ text)
    (hclear : Clear swaps text cs) (hclear' : Clear swaps text ds) :
    (exchange swaps cs).length < (exchange swaps ds).length ↔ cs.length < ds.length := by
  have hlt : ∀ {as bs : List Char}, as <:+ text → bs <:+ text → Clear swaps text as →
      as.length < bs.length → (exchange swaps as).length < (exchange swaps bs).length := by
    intro as bs has hbs hclear hlt
    exact (exchange_suffix (hfits.of_suffix hbs)
      (List.suffix_of_suffix_length_le has hbs (Nat.le_of_lt hlt)) (hclear.of_suffix hbs) hlt).2
  constructor
  · intro hnew
    rcases Nat.lt_trichotomy cs.length ds.length with hcase | hcase | hcase
    · exact hcase
    · rw [eq_of_length_eq hcs hds hcase] at hnew
      exact absurd hnew (Nat.lt_irrefl _)
    · exact absurd (hlt hds hcs hclear' hcase) (Nat.lt_asymm hnew)
  · exact hlt hcs hds hclear

/-- Values come in the order of their heads. -/
theorem length_fromValue_lt_iff {name name' fromValue fromValue' : List Char} (hcs : cs <:+ text)
    (hds : ds <:+ text) (hhead : defineHead? cs = some (name, fromValue))
    (hhead' : defineHead? ds = some (name', fromValue')) :
    fromValue.length < fromValue'.length ↔ cs.length < ds.length := by
  have hlen := defineHead?_length hhead
  have hlen' := defineHead?_length hhead'
  have hlt : ∀ {as bs n n' v v' : List Char}, as <:+ text → bs <:+ text →
      defineHead? as = some (n, v) → defineHead? bs = some (n', v') → v.length < v'.length →
      as.length < bs.length := by
    intro as bs n n' v v' has hbs ha hb hv
    exact Nat.lt_of_le_of_lt (heads_apart hbs has hb ha hv) (defineHead?_length hb)
  refine ⟨hlt hcs hds hhead hhead', fun hshort => ?_⟩
  rcases Nat.lt_trichotomy fromValue.length fromValue'.length with hcase | hcase | hcase
  · exact hcase
  · -- one value has one head
    obtain ⟨front, hfront, hsplit, -⟩ := defineHead?_eq_some_iff.1 hhead
    obtain ⟨tail, rfl, -⟩ := hfront.eq_cons
    rw [List.cons_append] at hsplit
    rw [hsplit] at hcs hlen hshort
    rw [List.length_cons] at hlen hshort
    have hsame := eq_of_sign_in_head hds hcs hhead' (by omega) (by omega)
    rw [hsame, List.length_cons] at hshort
    exact absurd hshort (Nat.lt_irrefl _)
  · exact absurd (hlt hds hcs hhead' hhead hcase) (Nat.lt_asymm hshort)

/-! ## Places of sites -/

/-- A site does not begin within what is exchanged: no comment opens there and no line starts. -/
theorem clear_of_mem_sites (hfits : Fits swaps text) {style : Style} {s : Site}
    (h : (cs, s) ∈ style.sites true text) : Clear swaps text cs := by
  obtain ⟨hcs, flag, hfound, hline⟩ := site?_of_mem_sites h
  intro part post hpart htaken hlow
  have hplain := htaken.isPlain (hfits.of_suffix hpart)
  by_contra hhigh
  obtain ⟨u, t, hsplit, hne, ht⟩ := exists_split_of_between hpart hcs hlow (by omega)
  by_cases hstyle : style = .block
  · have hopens := hplain.comment t ⟨u, hsplit.symm⟩ hne
    rw [opensComment, Bool.or_eq_false_iff, Option.isSome_eq_false_iff,
      Option.isSome_eq_false_iff, Option.isNone_iff_eq_none, Option.isNone_iff_eq_none] at hopens
    subst hstyle
    simp [Style.site?, blockBody?, ht, hopens.2] at hfound
  · rcases hline ((siteAt_of_site? hfound).2 hstyle) with ⟨heq, -⟩ | ⟨c, hc, hstarts⟩
    · have hle := hpart.length_le
      rw [List.length_append, ← heq] at hle
      omega
    · obtain ⟨u', t', hsplit', hne', ht'⟩ := exists_split_of_between hpart hc
        (by rw [List.length_cons]; omega) (by rw [List.length_cons]; omega)
      obtain ⟨d, t', rfl⟩ := List.exists_cons_of_ne_nil hne'
      obtain rfl := (List.cons.inj ht').1
      have hend := hplain.line c (by rw [hsplit']; simp)
      simp only [isLineEnd, Bool.or_eq_false_iff] at hend
      simp [startsLine, hend.1, hend.2] at hstarts

theorem Clear.head {front : List Char} (h : Clear swaps text (front ++ cs))
    (hsuffix : front ++ cs <:+ text) (hkept : Untouched swaps front cs) :
    Clear swaps text cs := by
  intro part post hpart htaken hlow
  have hle := h part post hpart htaken (by rw [List.length_append]; omega)
  by_contra hlt
  rw [← List.length_append] at hle
  obtain ⟨ahead, hahead⟩ := exists_append_of_length_le hsuffix hpart hle
  obtain ⟨within, hwithin⟩ :=
    exists_append_of_length_le hpart ((List.suffix_append front cs).trans hsuffix)
      (by rw [List.length_append]; omega)
  have hfront : front = ahead ++ within := by
    rw [hwithin, ← List.append_assoc] at hahead
    exact List.append_cancel_right hahead
  have hswapped := htaken.swapped
  rw [hwithin] at hswapped
  refine hkept within ⟨ahead, hfront.symm⟩ ?_ hswapped
  rintro rfl
  rw [List.nil_append] at hwithin
  rw [← hwithin, List.length_append] at hlt
  exact hlt (Nat.le_refl _)

/-- No other exchanged value stands on the line of a site, if none does so behind the value of a
documented define. -/
theorem alone_of_mem_sites {style : Style} {s : Site}
    (hlines : ∀ d ∈ documentedDefines text, ∀ part ds, text.drop d.span.start = part ++ ds →
      Swapped swaps ds → '\n' ∈ part)
    (h : (cs, s) ∈ style.sites true text) : Alone swaps s.fromValue := by
  obtain ⟨d, hd, hstart⟩ := exists_define_of_mem_sites h
  obtain ⟨hcs, flag, hfound, -⟩ := site?_of_mem_sites h
  obtain ⟨lead, head, post, hat⟩ := (siteAt_of_site? hfound).1
  have hsuffix : s.fromValue <:+ text := by
    obtain ⟨front, -, hhead, -⟩ := defineHead?_eq_some_iff.1 hat.name
    rw [hat.split, hhead] at hcs
    exact ((List.suffix_append _ _).trans (List.suffix_append _ _)).trans hcs
  have hdrop : text.drop d.span.start = s.fromValue := by
    rw [hstart]
    exact (List.suffix_iff_eq_drop.1 hsuffix).symm
  intro t ht hne hswapped
  obtain ⟨part, hpart⟩ := ht
  have hmem := hlines d hd part _ (by
    rw [hdrop, ← List.append_assoc, hpart, List.takeWhile_append_dropWhile]) hswapped
  have hin : '\n' ∈ s.fromValue.takeWhile (· ≠ '\n') := by
    rw [← hpart]
    exact List.mem_append_left _ hmem
  simpa using List.mem_takeWhile_imp hin

/-! ## Documented defines of the new text -/

/-- Whether a define of the new text is one of the old text with the value that is put there. The old
text has `length` characters. -/
structure Define.Follows (swaps : Nat → Option Swap) (length : Nat) (d d' : Define) : Prop where
  comment : d'.comment = d.comment
  name : d'.name = d.name
  value : Renewed swaps (length - d.span.start) d.value.toList d'.value.toList

/-- Whether two defines are those at a site of the old text and at its successor in the new one. -/
def AtOneSite (swaps : Nat → Option Swap) (text : List Char) (d d' : Define) : Prop :=
  ∃ here head s s', here <:+ text ∧ Clear swaps text here ∧ head <:+ text ∧ Clear swaps text head
    ∧ defineHead? head = some (s.name, s.fromValue) ∧ s.Follows swaps s'
    ∧ d = .ofSite text.length here s
    ∧ d' = .ofSite (exchange swaps text).length (exchange swaps here) s'

theorem AtOneSite.follows {d d' : Define} (h : AtOneSite swaps text d d') :
    d.Follows swaps text.length d' := by
  obtain ⟨here, head, s, s', -, -, hhead, -, hname, hs, rfl, rfl⟩ := h
  have hle := hhead.length_le
  have hlen := defineHead?_length hname
  refine ⟨hs.comment, congrArg String.ofList hs.name, ?_⟩
  have hplace : text.length - (Define.ofSite text.length here s).span.start
      = s.fromValue.length := by
    simp only [Define.ofSite]
    omega
  rw [hplace]
  simpa [Define.ofSite] using hs.value

/-- Sites come in one order in both texts, as do their values. -/
theorem AtOneSite.order (hfits : Fits swaps text) {d d' e e' : Define}
    (h : AtOneSite swaps text d d') (h' : AtOneSite swaps text e e') :
    (d.span.start ≤ e.span.start ↔ d'.span.start ≤ e'.span.start)
      ∧ (d.start ≤ e.start ↔ d'.start ≤ e'.start) := by
  obtain ⟨here, head, s, t, hhere, hclear, hhead, hclearhead, hname, hs, rfl, rfl⟩ := h
  obtain ⟨here', head', s', t', hhere', hclear', hhead', hclearhead', hname', hs', rfl, rfl⟩ := h'
  have hnew := exchange_suffix_text hfits hhead hclearhead
  have hnew' := exchange_suffix_text hfits hhead' hclearhead'
  have hdefine : defineHead? (exchange swaps head) = some (s.name, t.fromValue) := by
    rw [defineHead?_exchange (hfits.of_suffix hhead), hname, hs.fromValue]
    rfl
  have hdefine' : defineHead? (exchange swaps head') = some (s'.name, t'.fromValue) := by
    rw [defineHead?_exchange (hfits.of_suffix hhead'), hname', hs'.fromValue]
    rfl
  have hvalues : s.fromValue.length < s'.fromValue.length
      ↔ t.fromValue.length < t'.fromValue.length := by
    rw [length_fromValue_lt_iff hhead hhead' hname hname',
      length_fromValue_lt_iff hnew hnew' hdefine hdefine',
      length_exchange_lt_iff hfits hhead hhead' hclearhead hclearhead']
  have hplaces := length_exchange_lt_iff hfits hhere hhere' hclear hclear'
  have hlen := defineHead?_length hname
  have hlen' := defineHead?_length hname'
  have hnewlen := defineHead?_length hdefine
  have hnewlen' := defineHead?_length hdefine'
  have hle := hhead.length_le
  have hle' := hhead'.length_le
  have hnewle := hnew.length_le
  have hnewle' := hnew'.length_le
  have hherele := hhere.length_le
  have hherele' := hhere'.length_le
  have hnewhere := (exchange_suffix_text hfits hhere hclear).length_le
  have hnewhere' := (exchange_suffix_text hfits hhere' hclear').length_le
  simp only [Define.ofSite]
  constructor
  · omega
  · omega

/-- The documented defines of the new text are those of the old one with their new values. -/
theorem documentedDefines_exchange (h : Sound swaps text)
    (hlines : ∀ d ∈ documentedDefines text, ∀ part ds, text.drop d.span.start = part ++ ds →
      Swapped swaps ds → '\n' ∈ part) :
    List.Forall₂ (Define.Follows swaps text.length) (documentedDefines text)
      (documentedDefines (exchange swaps text)) := by
  have hstyle : ∀ style : Style, List.Forall₂ (AtOneSite swaps text)
      ((style.sites true text).map fun x => Define.ofSite text.length x.1 x.2)
      ((style.sites true (exchange swaps text)).map fun x =>
        Define.ofSite (exchange swaps text).length x.1 x.2) := by
    intro style
    rw [List.forall₂_map_left_iff, List.forall₂_map_right_iff]
    have hsites := sites_exchange h fun x (hx : x ∈ style.sites true text) =>
      alone_of_mem_sites hlines hx
    refine ((List.forall₂_and_left _ _).2 ⟨fun x hx => hx, hsites⟩).imp ?_
    rintro ⟨here, s⟩ ⟨_, s'⟩ ⟨hmem, rfl, hfollows⟩
    obtain ⟨hhere, flag, hfound, -⟩ := site?_of_mem_sites hmem
    obtain ⟨front, head, rfl, hkept, hname⟩ := exists_head_of_site? (h.of_suffix hhere) hfound
    have hclear := clear_of_mem_sites h.fits hmem
    exact ⟨_, head, s, s', hhere, hclear, (List.suffix_append front head).trans hhere,
      hclear.head hhere hkept, hname, hfollows, rfl, rfl⟩
  have hfound : List.Forall₂ (AtOneSite swaps text)
      ([Style.block, .line, .trailing].flatMap fun style =>
        (style.sites true text).map fun x => Define.ofSite text.length x.1 x.2)
      ([Style.block, .line, .trailing].flatMap fun style =>
        (style.sites true (exchange swaps text)).map fun x =>
          Define.ofSite (exchange swaps text).length x.1 x.2) := by
    refine List.rel_flatMap (List.forall₂_same.2 fun _ _ => rfl) ?_
    rintro style _ rfl
    exact hstyle style
  unfold documentedDefines
  refine (forall₂_mergeSort (forall₂_dropRepeated (forall₂_mergeSort hfound ?_) ?_) ?_).imp
    fun d d' hd => hd.follows
  · intro d e d' e' hd he
    rw [decide_eq_decide]
    exact (hd.order h.fits he).1
  · intro d e d' e' hd he
    have hle := (hd.order h.fits he).1
    have hge := (he.order h.fits hd).1
    omega
  · intro d e d' e' hd he
    rw [decide_eq_decide]
    exact (hd.order h.fits he).2

end Configurator.Comment
