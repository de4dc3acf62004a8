import Configurator.Header.Basic
import Configurator.Proofs.Sorting
import Mathlib.Data.List.DropRight
import Mathlib.Data.List.Infix

/-!
# Where defines stand

What the search for documented defines says about the text. A define has a head, from its sign to the
blanks in front of the value, and the value reaches up to the first place where a value of its style
can end (`Style.Reads`). Both are facts about the text alone, so that two defines of one text can be
compared: a head has no second sign, hence it never reaches into another head (`heads_apart`), and a
value that begins inside another one does not reach beyond it (`Stands.stop_le`).

Ends of a text are compared by `<:+`. Two ends of one text are ordered by their lengths.
-/

namespace Configurator

theorem Span.slice_eq {source before part after : List Char} {span : Span}
    (hsource : before ++ (part ++ after) = source) (hstart : span.start = before.length)
    (hstop : span.stop = before.length + part.length) : Span.slice source span = part := by
  rw [slice, ← hsource, hstart, hstop, ← List.append_assoc, ← List.length_append, List.take_left,
    List.drop_left]

namespace Comment

open Text

/-! ## Characters -/

theorem eq_of_isInlineBlank {c : Char} (h : isInlineBlank c = true) : c = ' ' ∨ c = '\t' := by
  simpa [isInlineBlank] using h

theorem not_isInlineBlank_of_isWordChar {c : Char} (h : isWordChar c = true) :
    isInlineBlank c = false := by
  by_contra hblank
  rcases eq_of_isInlineBlank (by simpa using hblank) with rfl | rfl
  · exact absurd h (by decide)
  · exact absurd h (by decide)

theorem ne_sign_of_isInlineBlank {c : Char} (h : isInlineBlank c = true) : c ≠ '#' := by
  rcases eq_of_isInlineBlank h with rfl | rfl <;> decide

theorem not_isLineEnd_of_isInlineBlank {c : Char} (h : isInlineBlank c = true) :
    isLineEnd c = false := by
  rcases eq_of_isInlineBlank h with rfl | rfl <;> decide

theorem eq_of_isLineEnd {c : Char} (h : isLineEnd c = true) : c = '\n' ∨ c = '\r' := by
  simpa [isLineEnd] using h

/-! ## Heads -/

/-- Whether a text is what stands in front of the value of a define with a name. -/
def IsHead (head name : List Char) : Prop :=
  ∃ gap gap', head = defineWord ++ gap ++ name ++ gap'
    ∧ (gap ≠ [] ∧ ∀ c ∈ gap, isInlineBlank c = true)
    ∧ (name ≠ [] ∧ ∀ c ∈ name, isWordChar c = true)
    ∧ gap' ≠ [] ∧ ∀ c ∈ gap', isInlineBlank c = true

/-- Whether a text begins with neither space nor tab. -/
def IsTight (cs : List Char) : Prop :=
  cs.dropWhile isInlineBlank = cs

theorem isTight_dropWhile (cs : List Char) : IsTight (cs.dropWhile isInlineBlank) :=
  List.dropWhile_idempotent _ cs

theorem isTight_cons {c : Char} {cs : List Char} :
    IsTight (c :: cs) ↔ isInlineBlank c = false := by
  unfold IsTight
  cases hc : isInlineBlank c with
  | false => simp [List.dropWhile_cons_of_neg, hc]
  | true =>
      simp only [List.dropWhile_cons_of_pos hc, Bool.true_eq_false, iff_false]
      intro h
      have := congrArg List.length h
      have := dropWhile_length_le isInlineBlank cs
      simp only [List.length_cons] at *
      omega

/-- Whether a value neither begins nor ends in a space or tab. -/
structure IsTrimmed (value : List Char) : Prop where
  tight : IsTight value
  last : ∀ before b, value = before ++ [b] → isInlineBlank b = false

theorem dropWhile_blanks_append {gap rest : List Char} (hgap : ∀ c ∈ gap, isInlineBlank c = true)
    (hrest : IsTight rest) : (gap ++ rest).dropWhile isInlineBlank = rest := by
  rw [List.dropWhile_append_of_pos hgap, hrest]

theorem skipGap?_eq_some_iff {cs rest : List Char} :
    skipGap? cs = some rest
      ↔ ∃ gap, gap ≠ [] ∧ (∀ c ∈ gap, isInlineBlank c = true) ∧ cs = gap ++ rest
          ∧ IsTight rest := by
  constructor
  · intro h
    cases cs with
    | nil => simp [skipGap?] at h
    | cons c cs =>
        cases hc : isInlineBlank c with
        | false => simp [skipGap?, hc] at h
        | true =>
            simp only [skipGap?, hc, if_true, Option.some.injEq] at h
            subst h
            refine ⟨c :: cs.takeWhile isInlineBlank, by simp, fun d hd => ?_, ?_,
              isTight_dropWhile cs⟩
            · rcases List.mem_cons.1 hd with rfl | hd
              · exact hc
              · exact List.mem_takeWhile_imp hd
            · rw [List.cons_append, List.takeWhile_append_dropWhile]
  · rintro ⟨gap, hne, hgap, rfl, hrest⟩
    cases gap with
    | nil => exact absurd rfl hne
    | cons b gap =>
        have hb := hgap b List.mem_cons_self
        have htail := dropWhile_blanks_append (fun c hc => hgap c (List.mem_cons_of_mem _ hc)) hrest
        simp [skipGap?, hb, htail]

theorem exists_isHead_of_defineHead? {cs name fromValue : List Char}
    (h : defineHead? cs = some (name, fromValue)) :
    ∃ head, IsHead head name ∧ cs = head ++ fromValue ∧ IsTight fromValue := by
  unfold defineHead? at h
  split at h
  · cases h
  · next afterWord hword =>
    split at h
    · cases h
    · next fromName hname =>
      dsimp only at h
      split at h
      · cases h
      · next hne =>
        obtain ⟨rest, hrest, heq⟩ := Option.map_eq_some_iff.1 h
        obtain ⟨rfl, rfl⟩ := Prod.mk.inj heq
        obtain ⟨gap, hgap, hblank, rfl, -⟩ := skipGap?_eq_some_iff.1 hname
        obtain ⟨gap', hgap', hblank', hsplit, htight⟩ := skipGap?_eq_some_iff.1 hrest
        refine ⟨_, ⟨gap, gap', rfl, ⟨hgap, hblank⟩, ⟨hne, ?_⟩, hgap', hblank'⟩, ?_, htight⟩
        · exact fun c hc => List.mem_takeWhile_imp hc
        · rw [dropPrefix?_eq_some_iff.1 hword]
          simp only [List.append_assoc]
          rw [← hsplit, List.takeWhile_append_dropWhile]

theorem defineHead?_append {head name fromValue : List Char} (h : IsHead head name)
    (htight : IsTight fromValue) : defineHead? (head ++ fromValue) = some (name, fromValue) := by
  obtain ⟨gap, gap', rfl, ⟨hgap, hblank⟩, ⟨hne, hword⟩, hgap', hblank'⟩ := h
  obtain ⟨b, gap', rfl⟩ := List.exists_cons_of_ne_nil hgap'
  have hb : isWordChar b = false := by
    by_contra hb'
    have hfirst := not_isInlineBlank_of_isWordChar (by simpa using hb')
    rw [hblank' b List.mem_cons_self] at hfirst
    cases hfirst
  have hnametight : IsTight (name ++ (b :: gap' ++ fromValue)) := by
    obtain ⟨c, name, rfl⟩ := List.exists_cons_of_ne_nil hne
    exact isTight_cons.2 (not_isInlineBlank_of_isWordChar (hword c List.mem_cons_self))
  have hfirst : dropPrefix? defineWord (defineWord ++ gap ++ name ++ b :: gap' ++ fromValue)
      = some (gap ++ (name ++ (b :: gap' ++ fromValue))) :=
    dropPrefix?_eq_some_iff.2 (by simp only [List.append_assoc])
  have hsecond : skipGap? (gap ++ (name ++ (b :: gap' ++ fromValue)))
      = some (name ++ (b :: gap' ++ fromValue)) :=
    skipGap?_eq_some_iff.2 ⟨gap, hgap, hblank, rfl, hnametight⟩
  have htake : (name ++ (b :: gap' ++ fromValue)).takeWhile isWordChar = name := by
    rw [List.takeWhile_append_of_pos hword, List.cons_append,
      List.takeWhile_cons_of_neg (by simp [hb]), List.append_nil]
  have hdrop : (name ++ (b :: gap' ++ fromValue)).dropWhile isWordChar
      = b :: gap' ++ fromValue := by
    rw [List.dropWhile_append_of_pos hword, List.cons_append,
      List.dropWhile_cons_of_neg (by simp [hb])]
  have hthird : skipGap? (b :: gap' ++ fromValue) = some fromValue :=
    skipGap?_eq_some_iff.2 ⟨b :: gap', hgap', hblank', rfl, htight⟩
  simp only [defineHead?, hfirst, hsecond, htake, hdrop, hthird, if_neg hne, Option.map_some]

/-- The head at the beginning of a text is read up to the value, whatever follows. -/
theorem defineHead?_eq_some_iff {cs name fromValue : List Char} :
    defineHead? cs = some (name, fromValue)
      ↔ ∃ head, IsHead head name ∧ cs = head ++ fromValue ∧ IsTight fromValue := by
  constructor
  · exact exists_isHead_of_defineHead?
  · rintro ⟨head, hhead, rfl, htight⟩
    exact defineHead?_append hhead htight

namespace IsHead

variable {head name : List Char}

/-- A head begins with the sign and has no other. -/
theorem eq_cons (h : IsHead head name) : ∃ tail, head = '#' :: tail ∧ '#' ∉ tail := by
  obtain ⟨gap, gap', rfl, ⟨-, hblank⟩, ⟨-, hword⟩, -, hblank'⟩ := h
  refine ⟨['d', 'e', 'f', 'i', 'n', 'e'] ++ gap ++ name ++ gap', rfl, fun hmem => ?_⟩
  simp only [List.mem_append] at hmem
  rcases hmem with ((hmem | hmem) | hmem) | hmem
  · exact absurd hmem (by decide)
  · exact ne_sign_of_isInlineBlank (hblank _ hmem) rfl
  · exact absurd (hword _ hmem) (by decide)
  · exact ne_sign_of_isInlineBlank (hblank' _ hmem) rfl

theorem not_isLineEnd (h : IsHead head name) : ∀ c ∈ head, isLineEnd c = false := by
  obtain ⟨gap, gap', rfl, ⟨-, hblank⟩, ⟨-, hword⟩, -, hblank'⟩ := h
  intro c hc
  simp only [List.mem_append] at hc
  rcases hc with ((hc | hc) | hc) | hc
  · have hall : ∀ c ∈ defineWord, isLineEnd c = false := by simp [defineWord, isLineEnd]
    exact hall c hc
  · exact not_isLineEnd_of_isInlineBlank (hblank c hc)
  · by_contra hend
    rcases eq_of_isLineEnd (by simpa using hend) with rfl | rfl
    · exact absurd (hword _ hc) (by decide)
    · exact absurd (hword _ hc) (by decide)
  · exact not_isLineEnd_of_isInlineBlank (hblank' c hc)

/-- A head ends in a blank. -/
theorem eq_append_blank (h : IsHead head name) :
    ∃ before b, head = before ++ [b] ∧ isInlineBlank b = true := by
  obtain ⟨gap, gap', rfl, -, -, hne, hblank'⟩ := h
  refine ⟨defineWord ++ gap ++ name ++ gap'.dropLast, gap'.getLast hne, ?_,
    hblank' _ (List.getLast_mem hne)⟩
  rw [List.append_assoc (defineWord ++ gap ++ name), List.dropLast_concat_getLast]

end IsHead

/-! ## Ends of one text -/

theorem exists_append_of_length_le {text cs ds : List Char} (hcs : cs <:+ text) (hds : ds <:+ text)
    (hle : ds.length ≤ cs.length) : ∃ before, cs = before ++ ds := by
  obtain ⟨before, h⟩ := List.suffix_of_suffix_length_le hds hcs hle
  exact ⟨before, h.symm⟩

theorem eq_of_length_eq {text cs ds : List Char} (hcs : cs <:+ text) (hds : ds <:+ text)
    (heq : cs.length = ds.length) : cs = ds := by
  obtain ⟨before, h⟩ := List.suffix_of_suffix_length_le hds hcs (Nat.le_of_eq heq.symm)
  have hlen := congrArg List.length h
  rw [List.length_append] at hlen
  rw [← h, List.eq_nil_of_length_eq_zero (by omega : before.length = 0), List.nil_append]

/-- An end that begins within a part of the text begins with an end of that part. -/
theorem exists_split_of_between {text part post cs : List Char} (hpart : part ++ post <:+ text)
    (hcs : cs <:+ text) (hlow : post.length < cs.length)
    (hhigh : cs.length ≤ part.length + post.length) :
    ∃ u t, part = u ++ t ∧ t ≠ [] ∧ cs = t ++ post := by
  rw [← List.length_append] at hhigh
  obtain ⟨u, hu⟩ := exists_append_of_length_le hpart hcs hhigh
  obtain ⟨t, ht⟩ :=
    exists_append_of_length_le hcs ((List.suffix_append part post).trans hpart) (Nat.le_of_lt hlow)
  refine ⟨u, t, ?_, ?_, ht⟩
  · rw [ht, ← List.append_assoc] at hu
    exact List.append_cancel_right hu
  · rintro rfl
    rw [ht, List.nil_append] at hlow
    exact absurd hlow (Nat.lt_irrefl _)

/-- A sign within a head is the one that the head begins with. -/
theorem eq_of_sign_in_head {text cs ds name fromValue : List Char} (hcs : cs <:+ text)
    (hds : '#' :: ds <:+ text) (hhead : defineHead? cs = some (name, fromValue))
    (hlow : fromValue.length < ds.length + 1) (hhigh : ds.length < cs.length) : cs = '#' :: ds := by
  obtain ⟨head, hh, rfl, -⟩ := defineHead?_eq_some_iff.1 hhead
  obtain ⟨tail, hsign, htail⟩ := hh.eq_cons
  obtain ⟨u, t, hsplit, hne, ht⟩ := exists_split_of_between hcs hds hlow
    (by rw [← List.length_append]; exact hhigh)
  cases u with
  | nil => rw [hsplit, List.nil_append, ht]
  | cons c u =>
      cases t with
      | nil => exact absurd rfl hne
      | cons d t =>
          rw [hsign, List.cons_append] at hsplit
          rw [(List.cons.inj hsplit).2, ← (List.cons.inj ht).1] at htail
          simp at htail

/-- Heads of one text do not reach into each other. -/
theorem heads_apart {text cs ds name name' fromValue fromValue' : List Char} (hcs : cs <:+ text)
    (hds : ds <:+ text) (hhead : defineHead? cs = some (name, fromValue))
    (hhead' : defineHead? ds = some (name', fromValue'))
    (hlt : fromValue'.length < fromValue.length) : ds.length ≤ fromValue.length := by
  by_contra hgt
  obtain ⟨head, hh, hcs', -⟩ := defineHead?_eq_some_iff.1 hhead
  obtain ⟨head', hh', hds', -⟩ := defineHead?_eq_some_iff.1 hhead'
  obtain ⟨tail, hsign, -⟩ := hh.eq_cons
  obtain ⟨tail', hsign', -⟩ := hh'.eq_cons
  rw [hsign, List.cons_append] at hcs'
  rw [hsign', List.cons_append] at hds'
  have hlen := congrArg List.length hcs'
  have hlen' := congrArg List.length hds'
  simp only [List.length_cons, List.length_append] at hlen hlen'
  have hsame : cs = ds := by
    rcases Nat.lt_or_ge cs.length ds.length with hcase | hcase
    · have := eq_of_sign_in_head hds (hcs' ▸ hcs) hhead'
        (by simp only [List.length_append]; omega) (by simp only [List.length_append]; omega)
      rw [hcs', this]
    · have := eq_of_sign_in_head hcs (hds' ▸ hds) hhead
        (by simp only [List.length_append]; omega) (by simp only [List.length_append]; omega)
      rw [hds', ← this]
  rw [hsame, hhead'] at hhead
  rw [(Prod.mk.inj (Option.some.inj hhead)).2] at hlt
  exact absurd hlt (Nat.lt_irrefl _)

/-! ## Values -/

/-- Whether a value of a style can end in front of a text. -/
def Style.endsAt : Style → List Char → Bool
  | .trailing, post => (dropPrefix? trailingMark (post.dropWhile isInlineBlank)).isSome
  | _, post => endsValue (post.dropWhile isInlineBlank)

/-- Whether a value of a style, read in front of a text, ends there and not before. -/
structure Style.Reads (style : Style) (value post : List Char) : Prop where
  ends : style.endsAt post = true
  runs : ∀ u t, value = u ++ t → t ≠ [] → style.endsAt (t ++ post) = false

theorem endsValue_cons {c : Char} {cs : List Char} :
    endsValue (c :: cs) = true ↔ isLineEnd c = true ∨ (c = '/' ∧ cs.head? = some '/') := by
  unfold endsValue isLineEnd
  cases cs <;> split <;> simp_all

theorem reads_plainValue {cs value post : List Char} (h : plainValue cs = (value, post)) :
    Style.block.Reads value post := by
  fun_induction plainValue cs generalizing value with
  | case1 =>
      obtain ⟨rfl, rfl⟩ := Prod.mk.inj h
      exact ⟨rfl, fun u t ht hne => absurd (List.append_eq_nil_iff.1 ht.symm).2 hne⟩
  | case2 c cs hends =>
      obtain ⟨rfl, rfl⟩ := Prod.mk.inj h
      exact ⟨hends, fun u t ht hne => absurd (List.append_eq_nil_iff.1 ht.symm).2 hne⟩
  | case3 c cs hends value' rest heq ih =>
      obtain ⟨rfl, rfl⟩ := Prod.mk.inj h
      have hreads := ih heq
      have hcs : cs = value' ++ rest := by
        have := plainValue_append cs
        rw [heq] at this
        exact this.symm
      refine ⟨hreads.ends, fun u t ht hne => ?_⟩
      cases u with
      | nil =>
          rw [List.nil_append] at ht
          rw [← ht, List.cons_append, ← hcs]
          simpa [Style.endsAt] using hends
      | cons d u => exact hreads.runs u t (List.cons.inj ht).2 hne

theorem reads_valueBeforeMark? {cs value inside : List Char}
    (h : valueBeforeMark? cs = some (value, inside)) :
    ∃ post, cs = value ++ post ∧ Style.trailing.Reads value post
      ∧ dropPrefix? trailingMark (post.dropWhile isInlineBlank) = some inside := by
  induction cs generalizing value with
  | nil => simp [valueBeforeMark?] at h
  | cons c cs ih =>
      rcases valueBeforeMark?_cons_eq_some_iff.1 h with ⟨rfl, hmark⟩ | ⟨hnone, -, value', rfl, hrest⟩
      · refine ⟨c :: cs, rfl, ⟨?_, fun u t ht hne => ?_⟩, hmark⟩
        · simp [Style.endsAt, hmark]
        · exact absurd (List.append_eq_nil_iff.1 ht.symm).2 hne
      · obtain ⟨post, rfl, hreads, hmark⟩ := ih hrest
        refine ⟨post, rfl, ⟨hreads.ends, fun u t ht hne => ?_⟩, hmark⟩
        cases u with
        | nil =>
            rw [List.nil_append] at ht
            rw [← ht, List.cons_append]
            simp [Style.endsAt, hnone]
        | cons d u => exact hreads.runs u t (List.cons.inj ht).2 hne

theorem lineFeed_not_mem_valueBeforeMark? {cs value inside : List Char}
    (h : valueBeforeMark? cs = some (value, inside)) : '\n' ∉ value := by
  induction cs generalizing value with
  | nil => cases h
  | cons c cs ih =>
      rcases valueBeforeMark?_cons_eq_some_iff.1 h with ⟨rfl, -⟩ | ⟨-, hc, value', rfl, hrest⟩
      · exact List.not_mem_nil
      · exact List.not_mem_cons_of_ne_of_not_mem hc.symm (ih hrest)

/-- A value of any style ends where a plain value can end. -/
theorem Style.endsValue_of_endsAt {style : Style} {post : List Char} (h : style.endsAt post = true) :
    endsValue (post.dropWhile isInlineBlank) = true := by
  cases style with
  | block => exact h
  | line => exact h
  | trailing =>
      obtain ⟨inside, hinside⟩ := Option.isSome_iff_exists.1 h
      rw [dropPrefix?_eq_some_iff.1 hinside]
      rfl

namespace Style.Reads

variable {style : Style} {value post : List Char}

/-- Where a value ends nothing but a line end, a slash or nothing stands behind the blanks. -/
theorem post_cases (h : style.Reads value post) :
    post.dropWhile isInlineBlank = []
      ∨ ∃ c rest, post.dropWhile isInlineBlank = c :: rest
          ∧ ((style ≠ .trailing ∧ isLineEnd c = true) ∨ (c = '/' ∧ rest.head? = some '/')) := by
  have hends := h.ends
  cases hpost : post.dropWhile isInlineBlank with
  | nil => exact .inl rfl
  | cons c rest =>
      refine .inr ⟨c, rest, rfl, ?_⟩
      cases style with
      | trailing =>
          obtain ⟨inside, hinside⟩ := Option.isSome_iff_exists.1 hends
          rw [hpost, dropPrefix?_eq_some_iff] at hinside
          obtain ⟨rfl, rfl⟩ := List.cons.inj hinside
          exact .inr ⟨rfl, rfl⟩
      | block | line =>
          simp only [endsAt, hpost] at hends
          exact (endsValue_cons.1 hends).imp_left fun hend => ⟨by decide, hend⟩

/-- A value does not end in a space or tab. -/
theorem not_blank_last (h : style.Reads value post) {before : List Char} {b : Char}
    (hlast : value = before ++ [b]) : isInlineBlank b = false := by
  by_contra hb
  have hruns := h.runs before [b] hlast (by simp)
  have hends := h.ends
  have hdrop : ([b] ++ post).dropWhile isInlineBlank = post.dropWhile isInlineBlank :=
    List.dropWhile_append_of_pos (by simpa using hb)
  cases style <;> simp_all [endsAt]

/-- A value of the line styles goes on to the first line end at most. -/
theorem not_isLineEnd (h : style.Reads value post) (hstyle : style ≠ .trailing) :
    ∀ c ∈ value, isLineEnd c = false := by
  intro c hc
  by_contra hend
  obtain ⟨u, t, rfl⟩ := List.append_of_mem hc
  have hruns := h.runs u (c :: t) rfl (by simp)
  have htight : (c :: t ++ post).dropWhile isInlineBlank = c :: t ++ post := by
    refine isTight_cons.2 ?_
    by_contra hb
    have := not_isLineEnd_of_isInlineBlank (by simpa using hb)
    exact hend this
  have hends : endsValue (c :: t ++ post) = true := endsValue_cons.2 (.inl (by simpa using hend))
  cases style <;> simp_all [endsAt]

end Style.Reads

/-! ## Sites -/

/-- What a site of a style says about the text that it begins: `lead` is what stands in front of the
head, `head` the text from there on, and `post` the text behind the value. -/
structure SiteAt (style : Style) (cs : List Char) (s : Site) (lead head post : List Char) : Prop where
  split : cs = lead ++ head
  name : defineHead? head = some (s.name, s.fromValue)
  value : s.fromValue = s.value ++ post
  reads : style.Reads s.value post
  line : '\n' ∉ s.value
  rest : s.rest <:+ post
  blank : style = .trailing → ∀ c ∈ lead, isInlineBlank c = true

theorem dropWhile_suffix (p : Char → Bool) (cs : List Char) : cs.dropWhile p <:+ cs :=
  List.dropWhile_suffix p

/-- What stands behind a mark is a suffix of the text, also if blanks stand in front of the mark. -/
theorem suffix_of_dropPrefix? {mark cs inside : List Char} {p : Char → Bool}
    (h : dropPrefix? mark (cs.dropWhile p) = some inside) : inside <:+ cs := by
  have hsuffix := dropWhile_suffix p cs
  rw [dropPrefix?_eq_some_iff.1 h] at hsuffix
  exact (List.suffix_append mark inside).trans hsuffix

theorem skipLine_suffix (cs : List Char) : skipLine cs <:+ cs := by
  fun_induction skipLine cs with
  | case1 | case2 | case3 => exact List.suffix_refl _
  | case4 c cs _ _ ih => exact ih.trans (List.suffix_cons c cs)

theorem skipComment_suffix (cs : List Char) : skipComment cs <:+ cs := by
  unfold skipComment
  split
  · next rest heq =>
    have hrest : rest <:+ cs.dropWhile isInlineBlank := heq ▸ List.suffix_append ['/', '/'] rest
    exact ((skipLine_suffix rest).trans hrest).trans (dropWhile_suffix _ cs)
  · exact dropWhile_suffix _ cs

theorem Style.Reads.of_block {value post : List Char} (h : Style.block.Reads value post)
    {style : Style} (hstyle : style ≠ .trailing) : style.Reads value post := by
  cases style with
  | block => exact h
  | line => exact ⟨h.ends, h.runs⟩
  | trailing => exact absurd rfl hstyle

/-- A define that a text ends with is a site of it, with what stands in front of the define. -/
theorem exists_siteAt_of_suffix {style : Style} {comment : List String} {cs ds : List Char} {s : Site}
    (hstyle : style ≠ .trailing) (hsuffix : ds <:+ cs) (h : plainDefine? comment ds = some s) :
    ∃ lead head post, SiteAt style cs s lead head post := by
  obtain ⟨lead, rfl⟩ := hsuffix
  obtain ⟨⟨name, fromValue⟩, hhead, rfl⟩ := Option.map_eq_some_iff.1 h
  have hreads : style.Reads (plainValue fromValue).1 (plainValue fromValue).2 :=
    (reads_plainValue rfl).of_block hstyle
  refine ⟨lead, ds, (plainValue fromValue).2, rfl, hhead, (plainValue_append fromValue).symm, hreads,
    fun hmem => ?_, skipComment_suffix _, fun h => absurd h hstyle⟩
  exact absurd (hreads.not_isLineEnd hstyle _ hmem) (by decide)

/-- What is left behind a site is an end of the text that it begins. -/
theorem SiteAt.rest_suffix {style : Style} {cs : List Char} {s : Site} {lead head post : List Char}
    (h : SiteAt style cs s lead head post) : s.rest <:+ cs := by
  obtain ⟨front, -, hhead, -⟩ := defineHead?_eq_some_iff.1 h.name
  rw [h.split, hhead, h.value]
  exact h.rest.trans ((List.suffix_append _ _).trans
    ((List.suffix_append _ _).trans (List.suffix_append _ _)))

theorem blockBody?_suffix {cs body rest : List Char} (h : blockBody? cs = some (body, rest)) :
    rest <:+ cs := by
  unfold blockBody? at h
  split at h
  · cases h
  · next inside hinside =>
    rw [dropPrefix?_eq_some_iff.1 hinside]
    have hrest : rest <:+ trimStart inside := ⟨body ++ ['*', '/'], (splitAtFirst?_eq_some h).symm⟩
    exact (hrest.trans (dropWhile_suffix _ inside)).trans (List.suffix_append _ _)

/-- A site is found where its comment begins, the line styles at the start of a line only. -/
theorem siteAt_of_site? {style : Style} {atLineStart : Bool} {cs : List Char} {s : Site}
    (h : style.site? atLineStart cs = some s) :
    (∃ lead head post, SiteAt style cs s lead head post) ∧ (style ≠ .block → atLineStart = true) := by
  cases style with
  | block =>
      obtain ⟨body, rest, hbody, hdefine⟩ := Style.block_site?_eq_some_iff.1 h
      refine ⟨?_, fun hne => absurd rfl hne⟩
      have hsuffix : trimStart rest <:+ cs :=
        (dropWhile_suffix isBlank rest).trans (blockBody?_suffix hbody)
      exact exists_siteAt_of_suffix (by decide) hsuffix hdefine
  | line =>
      obtain ⟨hstart, inside, c, next, hinside, hnext, -, hdefine⟩ :=
        Style.line_site?_eq_some_iff.1 h
      refine ⟨?_, fun _ => hstart⟩
      have hnext' : next <:+ inside := by
        have hsuffix := dropWhile_suffix (· ≠ '\n') inside
        rw [hnext] at hsuffix
        exact (List.suffix_cons c next).trans hsuffix
      have hsuffix : next.dropWhile isInlineBlank <:+ cs :=
        ((dropWhile_suffix isInlineBlank next).trans hnext').trans (suffix_of_dropPrefix? hinside)
      exact exists_siteAt_of_suffix (by decide) hsuffix hdefine
  | trailing =>
      obtain ⟨hstart, name, fromValue, value, inside, hhead, hvalue, rfl⟩ :=
        Style.trailing_site?_eq_some_iff.1 h
      obtain ⟨post, hpost, hreads, hmark⟩ := reads_valueBeforeMark? hvalue
      refine ⟨⟨cs.takeWhile isInlineBlank, cs.dropWhile isInlineBlank, post, ?_⟩, fun _ => hstart⟩
      refine ⟨List.takeWhile_append_dropWhile.symm, hhead, hpost, hreads,
        lineFeed_not_mem_valueBeforeMark? hvalue, ?_, fun _ c hc => ?_⟩
      · exact (dropWhile_suffix _ inside).trans (suffix_of_dropPrefix? hmark)
      · exact List.mem_takeWhile_imp hc

/-- Whether a line starts at an end of a text, where `atStart` says so for the whole text. -/
def LineStart (atStart : Bool) (text cs : List Char) : Prop :=
  (cs = text ∧ atStart = true) ∨ ∃ c, c :: cs <:+ text ∧ startsLine c cs = true

/-- Each site that is found is one of the text that it begins with. -/
theorem site?_of_mem_sites {style : Style} {atStart : Bool} {text here : List Char} {s : Site}
    (h : (here, s) ∈ style.sites atStart text) :
    here <:+ text ∧ ∃ atLineStart, style.site? atLineStart here = some s
      ∧ (atLineStart = true → LineStart atStart text here) := by
  fun_induction Style.sites style atStart text with
  | case1 => simp at h
  | case2 atStart c cs s' hsite ih =>
      rcases List.mem_cons.1 h with heq | h
      · obtain ⟨rfl, rfl⟩ := Prod.mk.inj heq
        exact ⟨List.suffix_refl _, atStart, hsite, fun hstart => .inl ⟨rfl, hstart⟩⟩
      · obtain ⟨lead, head, post, hat⟩ := (siteAt_of_site? hsite).1
        have hrest := hat.rest_suffix
        obtain ⟨hhere, flag, hfound, hline⟩ := ih h
        refine ⟨hhere.trans hrest, flag, hfound, fun hflag => ?_⟩
        rcases hline hflag with ⟨-, hfalse⟩ | ⟨d, hd, hstarts⟩
        · cases hfalse
        · exact .inr ⟨d, hd.trans hrest, hstarts⟩
  | case3 atStart c cs hnone ih =>
      obtain ⟨hhere, flag, hfound, hline⟩ := ih h
      refine ⟨hhere.trans (List.suffix_cons c cs), flag, hfound, fun hflag => ?_⟩
      rcases hline hflag with ⟨rfl, hstarts⟩ | ⟨d, hd, hstarts⟩
      · exact .inr ⟨c, List.suffix_refl _, hstarts⟩
      · exact .inr ⟨d, hd.trans (List.suffix_cons c cs), hstarts⟩

/-! ## Defines -/

/-- Where a define stands in a text: `head` is the text from its sign on, and `post` the text behind
its value. -/
structure Stands (text : List Char) (d : Define) (style : Style) (head post : List Char) :
    Prop where
  suffix : head <:+ text
  name : defineHead? head = some (d.name.toList, d.value.toList ++ post)
  reads : style.Reads d.value.toList post
  start : d.span.start = text.length - (d.value.toList ++ post).length
  stop : d.span.stop = d.span.start + d.value.toList.length
  oneLine : '\n' ∉ d.value.toList
  line : style = .trailing → ∃ lead, (∀ c ∈ lead, isInlineBlank c = true)
    ∧ lead ++ head <:+ text ∧ LineStart true text (lead ++ head)

theorem stands_of_mem_sites {style : Style} {text here : List Char} {s : Site}
    (h : (here, s) ∈ style.sites true text) :
    ∃ head post, Stands text (Define.ofSite text.length here s) style head post := by
  obtain ⟨hhere, flag, hfound, hline⟩ := site?_of_mem_sites h
  obtain ⟨⟨lead, head, post, hat⟩, hflag⟩ := siteAt_of_site? hfound
  have hname := hat.name
  rw [hat.value] at hname
  refine ⟨head, post, ?_, ?_, ?_, ?_, ?_, ?_, fun hstyle => ⟨lead, hat.blank hstyle, ?_, ?_⟩⟩
  · exact (hat.split ▸ List.suffix_append lead head).trans hhere
  · simpa [Define.ofSite] using hname
  · simpa [Define.ofSite] using hat.reads
  · simp [Define.ofSite, hat.value]
  · simp [Define.ofSite]
  · simpa [Define.ofSite] using hat.line
  · rwa [← hat.split]
  · rw [← hat.split]
    exact hline (hflag (by rw [hstyle]; decide))

theorem dropRepeated_sublist (ds : List Define) : (dropRepeated ds).Sublist ds := by
  fun_induction dropRepeated ds with
  | case1 d e ds _ ih => exact ih.trans ((List.sublist_cons_self e ds).cons_cons d)
  | case2 d e ds _ ih => exact ih.cons_cons d
  | case3 => exact List.Sublist.refl _

/-- Every documented define was found by a style. -/
theorem exists_site_of_mem {text : List Char} {d : Define} (h : d ∈ documentedDefines text) :
    ∃ style : Style, ∃ here s, (here, s) ∈ style.sites true text
      ∧ d = Define.ofSite text.length here s := by
  have hfound := List.mem_mergeSort.1 ((dropRepeated_sublist _).subset (List.mem_mergeSort.1 h))
  obtain ⟨style, -, hstyle⟩ := List.mem_flatMap.1 hfound
  obtain ⟨⟨here, s⟩, hsite, rfl⟩ := List.mem_map.1 hstyle
  exact ⟨style, here, s, hsite, rfl⟩

theorem exists_mem_dropRepeated {ds : List Define} {d : Define} (h : d ∈ ds) :
    ∃ e ∈ dropRepeated ds, e.span.start = d.span.start := by
  fun_induction dropRepeated ds generalizing d with
  | case1 d' e ds heq ih =>
      rcases List.mem_cons.1 h with rfl | h
      · exact ih List.mem_cons_self
      · rcases List.mem_cons.1 h with rfl | h
        · obtain ⟨x, hx, hstart⟩ := ih List.mem_cons_self
          exact ⟨x, hx, hstart.trans heq⟩
        · exact ih (List.mem_cons_of_mem d' h)
  | case2 d' e ds _ ih =>
      rcases List.mem_cons.1 h with rfl | h
      · exact ⟨d, List.mem_cons_self, rfl⟩
      · obtain ⟨x, hx, hstart⟩ := ih h
        exact ⟨x, List.mem_cons_of_mem d' hx, hstart⟩
  | case3 => exact ⟨d, h, rfl⟩

/-- Where a style finds a value, a documented define has its value. -/
theorem exists_define_of_mem_sites {style : Style} {text here : List Char} {s : Site}
    (h : (here, s) ∈ style.sites true text) :
    ∃ d ∈ documentedDefines text, d.span.start = text.length - s.fromValue.length := by
  have hfound : Define.ofSite text.length here s
      ∈ [Style.block, .line, .trailing].flatMap fun style =>
          (style.sites true text).map fun x => Define.ofSite text.length x.1 x.2 := by
    refine List.mem_flatMap.2 ⟨style, ?_, List.mem_map.2 ⟨(here, s), h, rfl⟩⟩
    cases style <;> decide
  obtain ⟨d, hd, hstart⟩ := exists_mem_dropRepeated (List.mem_mergeSort.2 hfound)
  exact ⟨d, List.mem_mergeSort.2 hd, hstart⟩

theorem stands_of_mem {text : List Char} {d : Define} (h : d ∈ documentedDefines text) :
    ∃ style head post, Stands text d style head post := by
  obtain ⟨style, here, s, hsite, rfl⟩ := exists_site_of_mem h
  exact ⟨style, stands_of_mem_sites hsite⟩

theorem pairwise_dropRepeated {ds : List Define}
    (h : ds.Pairwise fun d e => d.span.start ≤ e.span.start) :
    (dropRepeated ds).Pairwise fun d e => d.span.start < e.span.start := by
  fun_induction dropRepeated ds with
  | case1 d e ds heq ih =>
      refine ih ?_
      obtain ⟨hd, hds⟩ := List.pairwise_cons.1 h
      exact List.pairwise_cons.2 ⟨fun x hx => hd x (List.mem_cons_of_mem e hx),
        (List.pairwise_cons.1 hds).2⟩
  | case2 d e ds hne ih =>
      obtain ⟨hd, hds⟩ := List.pairwise_cons.1 h
      refine List.pairwise_cons.2 ⟨fun x hx => ?_, ih hds⟩
      have hde := hd e List.mem_cons_self
      rcases List.mem_cons.1 ((dropRepeated_sublist _).subset hx) with rfl | hx
      · omega
      · have hex := (List.pairwise_cons.1 hds).1 x hx
        omega
  | case3 ds hshort =>
      match ds, hshort with
      | [], _ => exact .nil
      | [d], _ => exact List.pairwise_singleton _ d
      | d :: e :: ds, hshort => exact absurd rfl (hshort d e ds)

/-- No two documented defines have their values at one place. -/
theorem pairwise_documentedDefines (text : List Char) :
    (documentedDefines text).Pairwise fun d e => d.span.start ≠ e.span.start := by
  unfold documentedDefines
  refine ((List.mergeSort_perm _ _).pairwise_iff fun h => Ne.symm h).2 ?_
  refine (pairwise_dropRepeated ?_).imp fun hlt => Nat.ne_of_lt hlt
  exact pairwise_mergeSort_le (fun d : Define => d.span.start) _

namespace Stands

variable {text : List Char} {d e : Define} {style style' : Style} {head head' post post' : List Char}

theorem value_suffix (h : Stands text d style head post) : d.value.toList ++ post <:+ text := by
  obtain ⟨front, -, hhead, -⟩ := defineHead?_eq_some_iff.1 h.name
  exact (hhead ▸ List.suffix_append front _).trans h.suffix

theorem post_suffix (h : Stands text d style head post) : post <:+ text :=
  (List.suffix_append _ _).trans h.value_suffix

theorem length_value (h : Stands text d style head post) :
    d.span.start + d.value.toList.length + post.length = text.length := by
  have hstart := h.start
  have hle := h.value_suffix.length_le
  rw [List.length_append] at hstart hle
  omega

theorem length_lt_head (h : Stands text d style head post) :
    d.value.toList.length + post.length < head.length := by
  obtain ⟨front, hfront, hhead, -⟩ := defineHead?_eq_some_iff.1 h.name
  obtain ⟨tail, rfl, -⟩ := hfront.eq_cons
  rw [hhead]
  simp only [List.length_append, List.length_cons]
  omega

theorem isTrimmed (h : Stands text d style head post) : IsTrimmed d.value.toList := by
  obtain ⟨-, -, -, htight⟩ := defineHead?_eq_some_iff.1 h.name
  refine ⟨?_, fun before b hlast => h.reads.not_blank_last hlast⟩
  cases hvalue : d.value.toList with
  | nil => rfl
  | cons c cs =>
      rw [hvalue, List.cons_append] at htight
      exact isTight_cons.2 (isTight_cons.1 htight)

/-- What stands in the place of a define, and behind it. -/
theorem slice_eq (h : Stands text d style head post) :
    Span.slice text d.span = d.value.toList ∧ text.drop d.span.stop = post := by
  obtain ⟨before, hbefore⟩ := h.value_suffix
  have hlen := congrArg List.length hbefore
  have hvalue := h.length_value
  simp only [List.length_append] at hlen
  have hstart : d.span.start = before.length := by omega
  constructor
  · refine Span.slice_eq hbefore hstart ?_
    rw [h.stop, hstart]
  · rw [h.stop, hstart, ← hbefore, ← List.append_assoc, ← List.length_append, List.drop_left]

/-- A character that stands behind a head's beginning and in front of the end of its value belongs to
the head or to the value. -/
theorem mem_head_or_value (h : Stands text d style head post) {c : Char} {cs : List Char}
    (hcs : c :: cs <:+ text) (hlow : post.length ≤ cs.length) (hhigh : cs.length < head.length) :
    (∃ front, IsHead front d.name.toList ∧ c ∈ front) ∨ c ∈ d.value.toList := by
  obtain ⟨front, hfront, hhead, -⟩ := defineHead?_eq_some_iff.1 h.name
  have hsuffix := h.suffix
  rw [hhead, ← List.append_assoc] at hsuffix
  have hlen := congrArg List.length hhead
  simp only [List.length_append] at hlen
  obtain ⟨u, t, hsplit, hne, ht⟩ := exists_split_of_between hsuffix hcs
    (by simp only [List.length_cons]; omega)
    (by simp only [List.length_cons, List.length_append]; omega)
  cases t with
  | nil => exact absurd rfl hne
  | cons b t =>
      have hmem : c ∈ front ++ d.value.toList := by
        rw [hsplit, (List.cons.inj ht).1]
        simp
      rcases List.mem_append.1 hmem with hmem | hmem
      · exact .inl ⟨front, hfront, hmem⟩
      · exact .inr hmem

/-- No define at the start of a line begins within the value of a line style. -/
theorem not_lineStart_of_within (h : Stands text d style head post) (hstyle : style ≠ .trailing)
    {lead : List Char} (hlead : ∀ c ∈ lead, isInlineBlank c = true)
    (hsuffix : lead ++ head' <:+ text) (hlow : post.length < head'.length)
    (hhigh : head'.length ≤ d.value.toList.length + post.length) :
    ¬ LineStart true text (lead ++ head') := by
  have hhead := h.length_lt_head
  obtain ⟨front, hfront, hsplit, -⟩ := defineHead?_eq_some_iff.1 h.name
  obtain ⟨tail, rfl, -⟩ := hfront.eq_cons
  -- the sign of the define would be one of the blanks in front of the other
  have hblank : ¬ head.length ≤ (lead ++ head').length := by
    intro hle
    rw [List.length_append] at hle
    obtain ⟨u, t, hu, hne, ht⟩ := exists_split_of_between hsuffix h.suffix (by omega) hle
    cases t with
    | nil => exact absurd rfl hne
    | cons b t =>
        have hb : b = '#' := by
          rw [hsplit] at ht
          exact (List.cons.inj ht).1.symm
        refine ne_sign_of_isInlineBlank (hlead b ?_) hb
        rw [hu]
        simp
  rintro (⟨heq, -⟩ | ⟨c, hc, hstarts⟩)
  · exact hblank (heq ▸ h.suffix.length_le)
  · have hend : isLineEnd c = true := by
      simp only [startsLine, Bool.or_eq_true, Bool.and_eq_true, beq_iff_eq] at hstarts
      rcases hstarts with rfl | ⟨rfl, -⟩ <;> rfl
    rcases h.mem_head_or_value hc (by rw [List.length_append]; omega) (by omega) with
      ⟨front', hfront', hmem⟩ | hmem
    · rw [hfront'.not_isLineEnd c hmem] at hend
      cases hend
    · rw [h.reads.not_isLineEnd hstyle c hmem] at hend
      cases hend

/-- A value that begins within another does not reach beyond it. -/
theorem stop_le (h : Stands text d style head post) (h' : Stands text e style' head' post')
    (hlt : d.span.start < e.span.start) (hin : e.span.start < d.span.stop) :
    e.span.stop ≤ d.span.stop := by
  have hlen := h.length_value
  have hlen' := h'.length_value
  have hstop := h.stop
  have hstop' := h'.stop
  by_contra hbeyond
  obtain ⟨u, t, -, hne, ht⟩ := exists_split_of_between h.value_suffix h'.value_suffix
    (by rw [List.length_append]; omega) (by rw [List.length_append]; omega)
  obtain ⟨x, hx⟩ := exists_append_of_length_le h.post_suffix h'.post_suffix (by omega)
  have hxne : x ≠ [] := by
    rintro rfl
    have := congrArg List.length hx
    rw [List.nil_append] at this
    omega
  have hvalue : e.value.toList = t ++ x := by
    rw [hx, ← List.append_assoc] at ht
    exact List.append_cancel_right ht
  have hends := h.reads.ends
  have hruns := h'.reads.runs t x hvalue hxne
  rw [← hx] at hruns
  by_cases hstyle : style = .trailing
  · subst hstyle
    have hmark := Style.endsValue_of_endsAt hends
    cases style' <;> simp_all [Style.endsAt]
  · by_cases hstyle' : style' = .trailing
    · obtain ⟨lead, hlead, hsuffix, hline⟩ := h'.line hstyle'
      have hapart := heads_apart h.suffix h'.suffix h.name h'.name
        (by simp only [List.length_append]; omega)
      have hhead' := h'.length_lt_head
      rw [List.length_append] at hapart
      exact h.not_lineStart_of_within hstyle hlead hsuffix (by omega) hapart hline
    · cases style <;> cases style' <;> simp_all [Style.endsAt]

end Stands

end Comment

end Configurator
