import Configurator.Proofs.Comment.Sites

/-!
# Replacing stretches of a text

`splice` walks over a text and puts other stretches in. When these are respelled values
(`Respells`), the text stays the same only if each stretch that is put in is what stood there
(`splice_eq_drop_iff`). Two changes cannot make up for each other: behind a value stands a blank, a
line end or a slash, and what is respelled at the end of a value is none of these as far as it is seen
first (`firstVisible_splice`).
-/

namespace Configurator

open Text

/-! ## Slices -/

theorem drop_eq_slice_append {source : List Char} {i j : Nat} (hij : i ≤ j) :
    source.drop i = Span.slice source ⟨i, j⟩ ++ source.drop j := by
  have h := (List.take_append_drop (j - i) (source.drop i)).symm
  rw [List.drop_drop, show i + (j - i) = j by omega] at h
  rw [h, Span.slice, List.drop_take]

theorem slice_append {source : List Char} {i j k : Nat} (hij : i ≤ j) (hjk : j ≤ k) :
    Span.slice source ⟨i, j⟩ ++ Span.slice source ⟨j, k⟩ = Span.slice source ⟨i, k⟩ := by
  have h := @drop_eq_slice_append (source.take k) i j hij
  rw [Span.slice, List.take_take, Nat.min_eq_left hjk] at h
  exact h.symm

namespace Header

/-! ## Edits -/

section Edits

variable {h : Header}

theorem exists_of_mem_edits {e : Span × List Char} (he : e ∈ h.edits) :
    ∃ p ∈ h.params, e = (p.span, p.rendered.toList) := by
  obtain ⟨p, hp, rfl⟩ := List.mem_map.1 (List.mem_mergeSort.1 he)
  exact ⟨p, hp, rfl⟩

theorem mem_edits {p : Parameter} (hp : p ∈ h.params) : (p.span, p.rendered.toList) ∈ h.edits :=
  List.mem_mergeSort.2 (List.mem_map.2 ⟨p, hp, rfl⟩)

/-- The edits come in the order of the text, each at its own place. -/
theorem pairwise_edits_of_distinct (hdistinct : h.params.Pairwise fun p q =>
    p.span.start ≠ q.span.start) : h.edits.Pairwise fun x e => x.1.start < e.1.start := by
  have hsorted : h.edits.Pairwise fun x e => x.1.start ≤ e.1.start :=
    pairwise_mergeSort_le (fun e : Span × List Char => e.1.start) _
  have hne : h.edits.Pairwise fun x e => x.1.start ≠ e.1.start := by
    refine ((List.mergeSort_perm _ _).pairwise_iff fun hne => Ne.symm hne).2 ?_
    exact List.pairwise_map.2 hdistinct
  exact hsorted.imp₂ (fun _ _ hle hne => by omega) hne

end Edits

/-! ## What is seen first -/

/-- The first character that is neither space nor tab. -/
def firstVisible (cs : List Char) : Option Char :=
  (cs.dropWhile isInlineBlank).head?

theorem firstVisible_append (cs ds : List Char) :
    firstVisible (cs ++ ds) = (firstVisible cs).or (firstVisible ds) := by
  unfold firstVisible
  induction cs with
  | nil => simp
  | cons c cs ih =>
      cases hc : isInlineBlank c with
      | true =>
          rw [List.cons_append, List.dropWhile_cons_of_pos hc, List.dropWhile_cons_of_pos hc, ih]
      | false =>
          rw [List.cons_append, List.dropWhile_cons_of_neg (by simp [hc]),
            List.dropWhile_cons_of_neg (by simp [hc])]
          rfl

theorem firstVisible_cons_of_not_blank {c : Char} {cs : List Char} (hc : isInlineBlank c = false) :
    firstVisible (c :: cs) = some c := by
  rw [firstVisible, List.dropWhile_cons_of_neg (by simp [hc])]
  rfl

/-- A text that does not end in a space or tab has a first visible character. -/
theorem exists_firstVisible {cs : List Char} (hne : cs ≠ [])
    (hlast : ∀ before b, cs = before ++ [b] → isInlineBlank b = false) :
    ∃ c ∈ cs, firstVisible cs = some c ∧ isInlineBlank c = false := by
  have hsplit := (List.dropLast_concat_getLast hne).symm
  have hb := hlast _ _ hsplit
  cases hdrop : cs.dropWhile isInlineBlank with
  | nil =>
      have hall := List.dropWhile_eq_nil_iff.1 hdrop (cs.getLast hne) (List.getLast_mem hne)
      rw [hb] at hall
      cases hall
  | cons c rest =>
      refine ⟨c, ?_, by rw [firstVisible, hdrop]; rfl, ?_⟩
      · exact (List.dropWhile_sublist isInlineBlank).subset (by rw [hdrop]; exact List.mem_cons_self)
      · have htight := Comment.isTight_dropWhile cs
        rw [hdrop] at htight
        exact Comment.isTight_cons.1 htight

/-! ## Respelled values -/

/-- A suffix of integer literals. -/
def IsSuffixLetter (c : Char) : Prop :=
  c = 'U' ∨ c = 'L'

theorem IsSuffixLetter.not_isBlank {c : Char} (h : IsSuffixLetter c) : isBlank c = false := by
  rcases h with rfl | rfl <;> decide

/-- Whether a stretch is a value of the text, and what is put in is the value with other suffixes. What
the value loses is `letters` and blanks behind them, and what it gets is `suffix`. -/
structure Respells (source : List Char) (e : Span × List Char) : Prop where
  start_le : e.1.start ≤ e.1.stop
  stop_le : e.1.stop ≤ source.length
  blank_before : ∃ before b, source.take e.1.start = before ++ [b] ∧ isInlineBlank b = true
  tight : Comment.IsTight (Span.slice source e.1)
  last : ∀ before b, Span.slice source e.1 = before ++ [b] → isInlineBlank b = false
  behind : ∀ c, firstVisible (source.drop e.1.stop) = some c →
    (Comment.isLineEnd c = true ∧ c ∉ Span.slice source e.1) ∨ c = '/'
  spelling : ∃ digits letters blanks suffix, Span.slice source e.1 = digits ++ (letters ++ blanks)
    ∧ e.2 = digits ++ suffix ∧ (∀ c ∈ letters, IsSuffixLetter c) ∧ (∀ c ∈ blanks, isBlank c = true)
    ∧ (∀ c ∈ suffix, IsSuffixLetter c) ∧ (digits = [] → Span.slice source e.1 = [])

variable {source : List Char} {e : Span × List Char} {es : List (Span × List Char)} {cursor : Nat}

theorem splice_of_lt (h : e.1.start < cursor) :
    splice source cursor (e :: es) = splice source cursor es := by
  rw [splice, if_pos (.inl h)]

theorem splice_of_le (hstop : e.1.stop ≤ source.length) (h : cursor ≤ e.1.start) :
    splice source cursor (e :: es)
      = Span.slice source ⟨cursor, e.1.start⟩ ++ e.2 ++ splice source e.1.stop es := by
  rw [splice, if_neg (by omega)]

theorem Respells.drop_eq (h : Respells source e) (hcursor : cursor ≤ e.1.start) :
    source.drop cursor = Span.slice source ⟨cursor, e.1.start⟩ ++ Span.slice source e.1
      ++ source.drop e.1.stop := by
  rw [drop_eq_slice_append hcursor, drop_eq_slice_append h.start_le, List.append_assoc]

/-- What is seen first behind a place stays, unless a suffix is put there. -/
theorem firstVisible_splice (hes : ∀ e ∈ es, Respells source e) (cursor : Nat) :
    firstVisible (splice source cursor es) = firstVisible (source.drop cursor)
      ∨ ∃ c, IsSuffixLetter c ∧ firstVisible (splice source cursor es) = some c := by
  induction es generalizing cursor with
  | nil => exact .inl rfl
  | cons e es ih =>
      have he := hes e List.mem_cons_self
      have ih' := ih fun x hx => hes x (List.mem_cons_of_mem e hx)
      rcases Nat.lt_or_ge e.1.start cursor with hskip | hput
      · rw [splice_of_lt hskip]
        exact ih' cursor
      · obtain ⟨digits, letters, blanks, suffix, hold, hnew, -, -, hsuffix, hempty⟩ := he.spelling
        rw [splice_of_le he.stop_le hput, he.drop_eq hput]
        simp only [firstVisible_append]
        cases hgap : firstVisible (Span.slice source ⟨cursor, e.1.start⟩) with
        | some c => exact .inl rfl
        | none =>
            simp only [Option.none_or]
            cases digits with
            | cons d digits =>
                have hd : isInlineBlank d = false := by
                  have htight := he.tight
                  rw [hold] at htight
                  exact Comment.isTight_cons.1 htight
                refine .inl ?_
                rw [hold, hnew, List.cons_append, List.cons_append,
                  firstVisible_cons_of_not_blank hd, firstVisible_cons_of_not_blank hd]
                rfl
            | nil =>
                rw [hnew, List.nil_append, hempty rfl]
                cases suffix with
                | nil => exact ih' e.1.stop
                | cons c suffix =>
                    have hc := hsuffix c List.mem_cons_self
                    refine .inr ⟨c, hc, ?_⟩
                    have hb : isInlineBlank c = false := by
                      rcases hc with rfl | rfl <;> decide
                    rw [firstVisible_cons_of_not_blank hb]
                    rfl

theorem head?_splice (hes : ∀ e ∈ es, Respells source e) (hne : ∀ e ∈ es, e.1.start ≠ cursor) :
    (splice source cursor es).head? = (source.drop cursor).head? := by
  induction es with
  | nil => rfl
  | cons e es ih =>
      have he := hes e List.mem_cons_self
      have hcursor := hne e List.mem_cons_self
      rcases Nat.lt_or_ge e.1.start cursor with hskip | hput
      · rw [splice_of_lt hskip]
        exact ih (fun x hx => hes x (List.mem_cons_of_mem e hx))
          fun x hx => hne x (List.mem_cons_of_mem e hx)
      · have hgap : Span.slice source ⟨cursor, e.1.start⟩ ≠ [] := by
          intro hnil
          have hlen := congrArg List.length hnil
          have hstart := he.start_le
          have hstop := he.stop_le
          simp only [Span.slice, List.length_drop, List.length_take, List.length_nil] at hlen
          omega
        rw [splice_of_le he.stop_le hput, he.drop_eq hput]
        obtain ⟨c, cs, hcons⟩ := List.exists_cons_of_ne_nil hgap
        rw [hcons]
        rfl

/-- Nothing is put in right behind a value that is not empty: a value has a blank in front of it, and
none at its end. -/
theorem Respells.start_ne_stop {x : Span × List Char} (he : Respells source e)
    (hx : Respells source x) (hne : Span.slice source e.1 ≠ []) : x.1.start ≠ e.1.stop := by
  intro heq
  obtain ⟨before, b, htake, hb⟩ := hx.blank_before
  have hlast := he.last _ _ (List.dropLast_concat_getLast hne).symm
  have hsplit : source.take e.1.stop = source.take e.1.start ++ Span.slice source e.1 := by
    have h := (List.take_append_drop e.1.start (source.take e.1.stop)).symm
    rwa [List.take_take, Nat.min_eq_left he.start_le] at h
  rw [heq, hsplit] at htake
  have hget := congrArg List.getLast? htake
  rw [List.getLast?_append_of_ne_nil _ hne, List.getLast?_concat, List.getLast?_eq_some_getLast hne,
    Option.some.injEq] at hget
  rw [hget, hb] at hlast
  cases hlast

theorem Respells.head?_behind (he : Respells source e) {c : Char} (hc : IsSuffixLetter c) :
    (source.drop e.1.stop).head? ≠ some c := by
  intro hhead
  obtain ⟨rest, hcons⟩ : ∃ rest, source.drop e.1.stop = c :: rest := by
    cases hdrop : source.drop e.1.stop with
    | nil => simp [hdrop] at hhead
    | cons d rest => exact ⟨rest, by simpa [hdrop] using hhead⟩
  have hb : isInlineBlank c = false := by rcases hc with rfl | rfl <;> decide
  rcases he.behind c (by rw [hcons, firstVisible_cons_of_not_blank hb]) with ⟨hend, -⟩ | hslash
  · rcases hc with rfl | rfl <;> cases hend
  · rcases hc with rfl | rfl <;> cases hslash

/-- Behind the suffixes of a value stand its blanks. -/
theorem forall_isBlank_of_append_eq {letters blanks kept lost : List Char} {c : Char}
    (hletters : ∀ d ∈ letters, IsSuffixLetter d) (hblanks : ∀ d ∈ blanks, isBlank d = true)
    (heq : letters ++ blanks = kept ++ c :: lost) (hc : ¬ IsSuffixLetter c) :
    ∀ d ∈ c :: lost, isBlank d = true := by
  intro d hd
  rcases List.append_eq_append_iff.1 heq with ⟨left, -, hover⟩ | ⟨left, hover, hlost⟩
  · exact hblanks d (by rw [hover]; exact List.mem_append_right _ hd)
  · cases left with
    | nil =>
        rw [List.nil_append] at hlost
        exact hblanks d (hlost ▸ hd)
    | cons b left =>
        have hb : c = b := (List.cons.inj hlost).1
        exact absurd (hletters c (by rw [hover, hb]; simp)) hc

/-- What follows a value does not begin with blanks that the value ends in: the last one of them would be
visible. -/
theorem Respells.splice_ne_blanks_append (he : Respells source e) (hes : ∀ x ∈ es, Respells source x)
    {kept lost : List Char} (hold : Span.slice source e.1 = kept ++ lost) (hne : lost ≠ [])
    (hblanks : ∀ d ∈ lost, isBlank d = true) :
    splice source e.1.stop es ≠ lost ++ source.drop e.1.stop := by
  intro heq
  obtain ⟨x, hx, hfirst, -⟩ := exists_firstVisible hne fun before b hb =>
    he.last (kept ++ before) b (by rw [hold, hb, List.append_assoc])
  have hseen : firstVisible (splice source e.1.stop es) = some x := by
    rw [heq, firstVisible_append, hfirst]
    rfl
  have hblank := hblanks x hx
  rcases firstVisible_splice hes e.1.stop with hsame | ⟨d, hd, hletter⟩
  · rw [hseen] at hsame
    rcases he.behind x hsame.symm with ⟨-, hnot⟩ | rfl
    · exact hnot (by rw [hold]; exact List.mem_append_right _ hx)
    · exact absurd hblank (by decide)
  · rw [hseen, Option.some.injEq] at hletter
    rw [hletter, hd.not_isBlank] at hblank
    cases hblank

/-- If a value and what follows make up the same text as what is put in and what follows then, what is
put in is the value. -/
theorem Respells.eq_slice (he : Respells source e) (hes : ∀ x ∈ es, Respells source x)
    (heq : e.2 ++ splice source e.1.stop es = Span.slice source e.1 ++ source.drop e.1.stop) :
    e.2 = Span.slice source e.1 := by
  obtain ⟨digits, letters, blanks, suffix, hold, hnew, hletters, hblanks, hsuffix, -⟩ := he.spelling
  have hcancel : suffix ++ splice source e.1.stop es
      = (letters ++ blanks) ++ source.drop e.1.stop := by
    rw [hold, hnew, List.append_assoc, List.append_assoc] at heq
    exact List.append_cancel_left heq
  rw [hold, hnew]
  rcases List.append_eq_append_iff.1 hcancel with ⟨lost, hlost, hrest⟩ | ⟨more, hmore, hrest⟩
  · cases lost with
    | nil => rw [hlost, List.append_nil]
    | cons c lost =>
        exfalso
        by_cases hc : IsSuffixLetter c
        · have hne : Span.slice source e.1 ≠ [] := by simp [hold, hlost]
          have hhead := head?_splice hes fun x hx => he.start_ne_stop (hes x hx) hne
          rw [hrest] at hhead
          exact he.head?_behind hc hhead.symm
        · have hsplit : Span.slice source e.1 = (digits ++ suffix) ++ c :: lost := by
            rw [hold, hlost, List.append_assoc]
          exact he.splice_ne_blanks_append hes hsplit (List.cons_ne_nil c lost)
            (forall_isBlank_of_append_eq hletters hblanks hlost hc) hrest
  · cases more with
    | nil => rw [hmore, List.append_nil]
    | cons c more =>
        have hc : IsSuffixLetter c := hsuffix c (by rw [hmore]; simp)
        exact absurd (by rw [hrest]; rfl) (he.head?_behind hc)

/-- Whether a stretch covers the beginning of another that begins behind it. -/
def Covers (x e : Span × List Char) : Prop :=
  x.1.start < e.1.start ∧ e.1.start < x.1.stop

theorem forall_not_covers_cons {y : Span × List Char} (hstop : e.1.stop ≤ y.1.start)
    (h : ∀ x ∈ es, ¬ Covers x y) : ∀ x ∈ e :: es, ¬ Covers x y := by
  refine List.forall_mem_cons.2 ⟨?_, h⟩
  intro hcovers
  exact absurd hcovers.2 (Nat.not_lt.2 hstop)

/-- The text comes back from a value on if the value is written as it stands there, and the text behind
it comes back. -/
theorem splice_cons_eq_drop_iff (he : Respells source e) (hes : ∀ x ∈ es, Respells source x)
    (hcursor : cursor ≤ e.1.start) :
    splice source cursor (e :: es) = source.drop cursor
      ↔ e.2 = Span.slice source e.1 ∧ splice source e.1.stop es = source.drop e.1.stop := by
  rw [splice_of_le he.stop_le hcursor, he.drop_eq hcursor, List.append_assoc, List.append_assoc,
    List.append_cancel_left_eq]
  constructor
  · intro heq
    have hvalue := he.eq_slice hes heq
    rw [hvalue] at heq
    exact ⟨hvalue, List.append_cancel_left heq⟩
  · rintro ⟨hvalue, hrest⟩
    rw [hvalue, hrest]

/-- Respelled values leave a text as it is exactly if each that no other covers is put in as it stood
there. -/
theorem splice_eq_drop_iff (hes : ∀ e ∈ es, Respells source e)
    (hsorted : es.Pairwise fun x e => x.1.start < e.1.start)
    (hnested : es.Pairwise fun x e => e.1.start < x.1.stop → e.1.stop ≤ x.1.stop)
    (hskip : ∀ e ∈ es, e.1.start < cursor → e.1.stop ≤ cursor) :
    splice source cursor es = source.drop cursor
      ↔ ∀ e ∈ es, cursor ≤ e.1.start → (∀ x ∈ es, ¬ Covers x e) → e.2 = Span.slice source e.1 := by
  induction es generalizing cursor with
  | nil => simp [splice]
  | cons e es ih =>
      obtain ⟨hlt, hsorted'⟩ := List.pairwise_cons.1 hsorted
      obtain ⟨hwithin, hnested'⟩ := List.pairwise_cons.1 hnested
      have he := hes e List.mem_cons_self
      have hes' : ∀ x ∈ es, Respells source x := fun x hx => hes x (List.mem_cons_of_mem e hx)
      rcases Nat.lt_or_ge e.1.start cursor with hcase | hcase
      · have hstop := hskip e List.mem_cons_self hcase
        rw [splice_of_lt hcase, ih hes' hsorted' hnested'
          fun x hx => hskip x (List.mem_cons_of_mem e hx)]
        constructor
        · intro h y hy hcursor hcover
          rcases List.mem_cons.1 hy with rfl | hy
          · omega
          · exact h y hy hcursor fun x hx => hcover x (List.mem_cons_of_mem e hx)
        · intro h y hy hcursor hcover
          exact h y (List.mem_cons_of_mem e hy) hcursor
            (forall_not_covers_cons (by omega) hcover)
      · rw [splice_cons_eq_drop_iff he hes' hcase,
          ih hes' hsorted' hnested' fun x hx => hwithin x hx]
        constructor
        · rintro ⟨hvalue, h⟩ y hy - hcover
          rcases List.mem_cons.1 hy with rfl | hy
          · exact hvalue
          · have hnot := hcover e List.mem_cons_self
            refine h y hy ?_ fun x hx => hcover x (List.mem_cons_of_mem e hx)
            by_contra hin
            exact hnot ⟨hlt y hy, by omega⟩
        · intro h
          refine ⟨h e List.mem_cons_self hcase fun x hx hcovers => ?_, fun y hy hcursor hcover => ?_⟩
          · have hbefore := hcovers.1
            rcases List.mem_cons.1 hx with rfl | hx
            · omega
            · have := hlt x hx
              omega
          · have := hlt y hy
            exact h y (List.mem_cons_of_mem e hy) (by omega)
              (forall_not_covers_cons hcursor hcover)

end Header

end Configurator
