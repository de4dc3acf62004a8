import Configurator.Proofs.Comment.Sites

/-!
# Exchanging values

`exchange` puts other values into a text, each at the place of a define's value. It walks from head to
head: a head that it meets is kept whole, and the value behind it is exchanged. No text but a head has
a sign that an exchange looks at, so whatever is read up to the next sign is read from the new text as
from the old one. The other way round, a head of the new text is one of the old text
(`defineHead?_exchange`).
-/

namespace Configurator.Comment

open Text

/-! ## Swaps -/

/-- A value and the one that is put for it. -/
structure Swap where
  old : List Char
  new : List Char

/-- Whether a comment opens at the beginning of a text. -/
def opensComment (cs : List Char) : Bool :=
  (dropPrefix? ['/', '/'] cs).isSome || (dropPrefix? ['/', '*', '*'] cs).isSome

/-- Whether a value in front of a text has no line end, and no comment opens in it. -/
structure IsPlain (value post : List Char) : Prop where
  line : ∀ c ∈ value, isLineEnd c = false
  comment : ∀ t, t <:+ value → t ≠ [] → opensComment (t ++ post) = false

theorem isPlain_iff {value post : List Char} :
    IsPlain value post ↔ (value.all (!isLineEnd ·)
      && value.tails.all fun t => t.isEmpty || !opensComment (t ++ post)) = true := by
  simp only [Bool.and_eq_true, List.all_eq_true, Bool.not_eq_true', List.mem_tails,
    Bool.or_eq_true, List.isEmpty_iff]
  constructor
  · intro h
    exact ⟨h.line, fun t ht => or_iff_not_imp_left.2 (h.comment t ht)⟩
  · rintro ⟨hline, hcomment⟩
    exact ⟨hline, fun t ht hne => (hcomment t ht).resolve_left hne⟩

instance (value post : List Char) : Decidable (IsPlain value post) :=
  decidable_of_iff _ isPlain_iff.symm

/-- Whether a swap can take place in front of a text. -/
structure Swap.Fits (s : Swap) (post : List Char) : Prop where
  ends : endsValue (post.dropWhile isInlineBlank) = true
  plain_old : IsPlain s.old post
  plain_new : IsPlain s.new post
  trimmed_old : IsTrimmed s.old
  trimmed_new : IsTrimmed s.new

/-- The text with some of the values behind its heads exchanged. The place of a value is given as the
length of the text from there on. -/
def exchange (swaps : Nat → Option Swap) (cs : List Char) : List Char :=
  match cs with
  | [] => []
  | c :: cs =>
    match _h : defineHead? (c :: cs) with
    | none => c :: exchange swaps cs
    | some (_, fromValue) =>
      match swaps fromValue.length with
      | none => c :: exchange swaps cs
      | some s =>
        (c :: cs).take ((c :: cs).length - fromValue.length) ++ s.new
          ++ exchange swaps (fromValue.drop s.old.length)
termination_by cs.length
decreasing_by
  · simp
  · simp
  · have := defineHead?_length _h
    rw [List.length_drop]
    omega

/-- Whether a text begins with a head whose value is exchanged. -/
def Swapped (swaps : Nat → Option Swap) (cs : List Char) : Prop :=
  ∃ name fromValue s, defineHead? cs = some (name, fromValue) ∧ swaps fromValue.length = some s

/-- Whether each swap fits in its place of a text. -/
def Fits (swaps : Nat → Option Swap) (text : List Char) : Prop :=
  ∀ cs name fromValue s, cs <:+ text → defineHead? cs = some (name, fromValue) →
    swaps fromValue.length = some s → ∃ post, fromValue = s.old ++ post ∧ s.Fits post

variable {swaps : Nat → Option Swap} {text cs : List Char}

theorem Fits.of_suffix (h : Fits swaps text) (hcs : cs <:+ text) : Fits swaps cs :=
  fun ds name fromValue s hds => h ds name fromValue s (hds.trans hcs)

/-! ## Steps of an exchange -/

theorem Swapped.eq_sign {c : Char} (h : Swapped swaps (c :: cs)) : c = '#' := by
  obtain ⟨name, fromValue, s, hhead, -⟩ := h
  obtain ⟨head, hh, hsplit, -⟩ := defineHead?_eq_some_iff.1 hhead
  obtain ⟨tail, rfl, -⟩ := hh.eq_cons
  exact (List.cons.inj hsplit).1

theorem exchange_nil : exchange swaps [] = [] := by
  rw [exchange]

/-- What is not a head of an exchanged value is kept. -/
theorem exchange_cons {c : Char} (h : ¬ Swapped swaps (c :: cs)) :
    exchange swaps (c :: cs) = c :: exchange swaps cs := by
  rw [exchange]
  split
  · rfl
  · next name fromValue hhead =>
    split
    · rfl
    · next s hs => exact absurd ⟨name, fromValue, s, hhead, hs⟩ h

theorem exchange_cons_of_ne_sign {c : Char} (h : c ≠ '#') :
    exchange swaps (c :: cs) = c :: exchange swaps cs :=
  exchange_cons fun hswapped => h hswapped.eq_sign

/-- Behind a head the new value is put. -/
theorem exchange_head {front name post : List Char} {s : Swap} (hfront : IsHead front name)
    (htight : IsTight (s.old ++ post)) (hs : swaps (s.old ++ post).length = some s) :
    exchange swaps (front ++ (s.old ++ post)) = front ++ (s.new ++ exchange swaps post) := by
  have hhead : defineHead? (front ++ (s.old ++ post)) = some (name, s.old ++ post) :=
    defineHead?_eq_some_iff.2 ⟨front, hfront, rfl, htight⟩
  obtain ⟨tail, rfl, -⟩ := hfront.eq_cons
  rw [List.cons_append] at hhead ⊢
  rw [exchange]
  split
  · next hnone =>
    rw [hhead] at hnone
    cases hnone
  · next name' fromValue hsome =>
    rw [hhead, Option.some.injEq, Prod.mk.injEq] at hsome
    obtain ⟨rfl, rfl⟩ := hsome
    have hlen : ('#' :: (tail ++ (s.old ++ post))).length - (s.old ++ post).length
        = ('#' :: tail).length := by
      simp only [List.length_cons, List.length_append]
      omega
    rw [hs]
    dsimp only
    rw [hlen, ← List.cons_append, List.take_left, List.drop_left, List.append_assoc]

/-- The parts of a text that begins with a head whose value is exchanged. -/
theorem Swapped.split (h : Swapped swaps cs) (hfits : Fits swaps cs) :
    ∃ front name post s, cs = front ++ (s.old ++ post) ∧ IsHead front name
      ∧ IsTight (s.old ++ post) ∧ swaps (s.old ++ post).length = some s ∧ s.Fits post
      ∧ exchange swaps cs = front ++ (s.new ++ exchange swaps post) := by
  obtain ⟨name, fromValue, s, hhead, hs⟩ := h
  obtain ⟨post, rfl, hfit⟩ := hfits cs name fromValue s (List.suffix_refl _) hhead hs
  obtain ⟨front, hfront, rfl, htight⟩ := defineHead?_eq_some_iff.1 hhead
  exact ⟨front, name, post, s, rfl, hfront, htight, hs, hfit, exchange_head hfront htight hs⟩

/-- A text is nothing, or begins with a character that is kept or with a head of an exchanged value. -/
theorem Fits.induction {motive : List Char → Prop} (hfits : Fits swaps text) (nil : motive [])
    (keep : ∀ c cs, Fits swaps (c :: cs) → ¬ Swapped swaps (c :: cs) → motive cs →
      motive (c :: cs))
    (swap : ∀ front name post s, Fits swaps (front ++ (s.old ++ post)) → IsHead front name →
      IsTight (s.old ++ post) → swaps (s.old ++ post).length = some s → s.Fits post →
      motive post → motive (front ++ (s.old ++ post))) :
    motive text := by
  induction hn : text.length using Nat.strong_induction_on generalizing text with
  | _ n ih =>
    cases text with
    | nil => exact nil
    | cons c cs =>
        rw [List.length_cons] at hn
        by_cases hswapped : Swapped swaps (c :: cs)
        · obtain ⟨front, name, post, s, hsplit, hfront, htight, hs, hfit, -⟩ :=
            hswapped.split hfits
          rw [hsplit] at hfits ⊢
          have hpost : post <:+ front ++ (s.old ++ post) :=
            (List.suffix_append s.old post).trans (List.suffix_append front _)
          obtain ⟨tail, htail, -⟩ := hfront.eq_cons
          have hlen := congrArg List.length hsplit
          rw [htail] at hlen
          simp only [List.length_cons, List.length_append] at hlen
          refine swap front name post s hfits hfront htight hs hfit ?_
          exact ih post.length (by omega) (hfits.of_suffix hpost) rfl
        · refine keep c cs hfits hswapped ?_
          exact ih cs.length (by omega) (hfits.of_suffix (List.suffix_cons c cs)) rfl

/-- The first character of a text is kept. -/
theorem exists_exchange_cons (swaps : Nat → Option Swap) (c : Char) (cs : List Char) :
    ∃ ds, exchange swaps (c :: cs) = c :: ds := by
  rw [exchange]
  split
  · exact ⟨_, rfl⟩
  · next name fromValue hhead =>
    split
    · exact ⟨_, rfl⟩
    · have hlen := defineHead?_length hhead
      obtain ⟨k, hk⟩ : ∃ k, (c :: cs).length - fromValue.length = k + 1 :=
        ⟨(c :: cs).length - fromValue.length - 1, by omega⟩
      rw [hk, List.take_succ_cons, List.cons_append, List.cons_append]
      exact ⟨_, rfl⟩

theorem head?_exchange (swaps : Nat → Option Swap) (cs : List Char) :
    (exchange swaps cs).head? = cs.head? := by
  cases cs with
  | nil => rw [exchange_nil]
  | cons c cs =>
      obtain ⟨ds, hds⟩ := exists_exchange_cons swaps c cs
      rw [hds]
      rfl

/-! ## Stretches without an exchange -/

/-- Whether no head of an exchanged value begins in `part`, where `post` follows. -/
def Untouched (swaps : Nat → Option Swap) (part post : List Char) : Prop :=
  ∀ t, t <:+ part → t ≠ [] → ¬ Swapped swaps (t ++ post)

theorem untouched_nil (post : List Char) : Untouched swaps [] post :=
  fun _ ht hne => absurd (List.suffix_nil.1 ht) hne

theorem untouched_cons {c : Char} {part post : List Char} :
    Untouched swaps (c :: part) post
      ↔ ¬ Swapped swaps (c :: (part ++ post)) ∧ Untouched swaps part post := by
  constructor
  · intro h
    exact ⟨h (c :: part) (List.suffix_refl _) (by simp),
      fun t ht hne => h t (ht.trans (List.suffix_cons c part)) hne⟩
  · rintro ⟨hfirst, h⟩ t ht hne
    rcases List.suffix_cons_iff.1 ht with rfl | ht
    · exact hfirst
    · exact h t ht hne

theorem Untouched.of_suffix {part part' post : List Char} (h : Untouched swaps part post)
    (hpart : part' <:+ part) : Untouched swaps part' post :=
  fun t ht hne => h t (ht.trans hpart) hne

theorem untouched_append {part part' post : List Char} :
    Untouched swaps (part ++ part') post
      ↔ Untouched swaps part (part' ++ post) ∧ Untouched swaps part' post := by
  induction part with
  | nil => simp [untouched_nil]
  | cons c part ih =>
      rw [List.cons_append, untouched_cons, untouched_cons, ih, List.append_assoc, and_assoc]

theorem untouched_of_not_mem {part : List Char} (h : '#' ∉ part) (post : List Char) :
    Untouched swaps part post := by
  intro t ht hne hswapped
  obtain ⟨c, t, rfl⟩ := List.exists_cons_of_ne_nil hne
  rw [List.cons_append] at hswapped
  obtain rfl := hswapped.eq_sign
  exact h (ht.subset List.mem_cons_self)

theorem exchange_append {part post : List Char} (h : Untouched swaps part post) :
    exchange swaps (part ++ post) = part ++ exchange swaps post := by
  induction part with
  | nil => rfl
  | cons c part ih =>
      obtain ⟨hfirst, h⟩ := untouched_cons.1 h
      rw [List.cons_append, exchange_cons hfirst, ih h, List.cons_append]

/-- What the new text begins with before its first sign, the old text begins with. -/
theorem exists_of_exchange_eq_append {part post : List Char} (hpart : '#' ∉ part)
    (h : exchange swaps cs = part ++ post) : ∃ ds, cs = part ++ ds ∧ exchange swaps ds = post := by
  induction part generalizing cs with
  | nil => exact ⟨cs, rfl, h⟩
  | cons c part ih =>
      have hc : c ≠ '#' := fun heq => hpart (heq ▸ List.mem_cons_self)
      cases cs with
      | nil =>
          rw [exchange_nil] at h
          cases h
      | cons d cs =>
          obtain ⟨ds, hds⟩ := exists_exchange_cons swaps d cs
          have hdc : d = c := by
            rw [hds] at h
            exact (List.cons.inj h).1
          subst hdc
          rw [exchange_cons_of_ne_sign hc] at h
          obtain ⟨ds, rfl, hexchange⟩ :=
            ih (fun hmem => hpart (List.mem_cons_of_mem d hmem)) (List.cons.inj h).2
          exact ⟨ds, rfl, hexchange⟩

/-! ## Reading up to the next sign -/

theorem dropWhile_exchange {p : Char → Bool} (hp : p '#' = false) (cs : List Char) :
    (exchange swaps cs).dropWhile p = exchange swaps (cs.dropWhile p) := by
  induction cs with
  | nil =>
      rw [exchange_nil]
      exact exchange_nil.symm
  | cons c cs ih =>
      cases hc : p c with
      | true =>
          have hne : c ≠ '#' := by
            rintro rfl
            rw [hp] at hc
            cases hc
          rw [exchange_cons_of_ne_sign hne, List.dropWhile_cons_of_pos hc,
            List.dropWhile_cons_of_pos hc, ih]
      | false =>
          obtain ⟨ds, hds⟩ := exists_exchange_cons swaps c cs
          rw [List.dropWhile_cons_of_neg (by simp [hc]), hds,
            List.dropWhile_cons_of_neg (by simp [hc])]

theorem dropPrefix?_exchange {start : List Char} (hstart : '#' ∉ start) (cs : List Char) :
    dropPrefix? start (exchange swaps cs) = (dropPrefix? start cs).map (exchange swaps) := by
  cases hold : dropPrefix? start cs with
  | some rest =>
      rw [dropPrefix?_eq_some_iff.1 hold, exchange_append (untouched_of_not_mem hstart rest)]
      exact dropPrefix?_eq_some_iff.2 rfl
  | none =>
      cases hnew : dropPrefix? start (exchange swaps cs) with
      | none => rfl
      | some rest =>
          obtain ⟨ds, rfl, -⟩ :=
            exists_of_exchange_eq_append hstart (dropPrefix?_eq_some_iff.1 hnew)
          rw [dropPrefix?_eq_some_iff.2 rfl] at hold
          cases hold

/-- What begins in a stretch that is kept begins there in the new text. -/
theorem isSome_dropPrefix?_append_exchange {start : List Char} (hstart : '#' ∉ start)
    (part post : List Char) :
    (dropPrefix? start (part ++ exchange swaps post)).isSome
      = (dropPrefix? start (part ++ post)).isSome := by
  induction part generalizing start with
  | nil =>
      rw [List.nil_append, List.nil_append, dropPrefix?_exchange hstart, Option.isSome_map]
  | cons c part ih =>
      cases start with
      | nil => rfl
      | cons d start =>
          rw [List.cons_append, List.cons_append, dropPrefix?, dropPrefix?]
          split
          · exact ih fun hmem => hstart (List.mem_cons_of_mem d hmem)
          · rfl

theorem isTight_exchange : IsTight (exchange swaps cs) ↔ IsTight cs := by
  cases cs with
  | nil => rw [exchange_nil]
  | cons c cs =>
      obtain ⟨ds, hds⟩ := exists_exchange_cons swaps c cs
      rw [hds, isTight_cons, isTight_cons]

theorem endsValue_exchange (cs : List Char) : endsValue (exchange swaps cs) = endsValue cs := by
  cases cs with
  | nil => rw [exchange_nil]
  | cons c cs =>
      rw [Bool.eq_iff_iff]
      by_cases hc : c = '#'
      · obtain ⟨ds, hds⟩ := exists_exchange_cons swaps c cs
        rw [hds, hc, endsValue_cons, endsValue_cons]
        simp [isLineEnd]
      · rw [exchange_cons_of_ne_sign hc, endsValue_cons, endsValue_cons, head?_exchange]

theorem IsPlain.exchange {value post : List Char} (h : IsPlain value post) :
    IsPlain value (exchange swaps post) := by
  refine ⟨h.line, fun t ht hne => ?_⟩
  have hopens := h.comment t ht hne
  unfold opensComment at hopens ⊢
  rwa [isSome_dropPrefix?_append_exchange (by decide), isSome_dropPrefix?_append_exchange (by decide)]

/-! ## Heads -/

/-- What the new text has from the place of a value on, the blanks in front of it aside. -/
def putValue (swaps : Nat → Option Swap) (fromValue : List Char) : List Char :=
  match swaps fromValue.length with
  | none => exchange swaps fromValue
  | some s => (s.new ++ exchange swaps (fromValue.drop s.old.length)).dropWhile isInlineBlank

theorem putValue_of_none {fromValue : List Char} (h : swaps fromValue.length = none) :
    putValue swaps fromValue = exchange swaps fromValue := by
  rw [putValue, h]

theorem putValue_of_some {post : List Char} {s : Swap} (h : swaps (s.old ++ post).length = some s) :
    putValue swaps (s.old ++ post) = (s.new ++ exchange swaps post).dropWhile isInlineBlank := by
  rw [putValue, h]
  dsimp only
  rw [List.drop_left]

/-- A head that keeps its value is kept. -/
theorem exchange_front {front name fromValue : List Char} (hfront : IsHead front name)
    (htight : IsTight fromValue) (hnone : swaps fromValue.length = none) :
    exchange swaps (front ++ fromValue) = front ++ exchange swaps fromValue := by
  refine exchange_append ?_
  obtain ⟨tail, rfl, htail⟩ := hfront.eq_cons
  refine untouched_cons.2 ⟨?_, untouched_of_not_mem htail fromValue⟩
  rintro ⟨name', fromValue', s, hhead, hs⟩
  have hhead' : defineHead? ('#' :: (tail ++ fromValue)) = some (name, fromValue) :=
    defineHead?_eq_some_iff.2 ⟨'#' :: tail, hfront, rfl, htight⟩
  rw [hhead'] at hhead
  obtain ⟨rfl, rfl⟩ := Prod.mk.inj (Option.some.inj hhead)
  rw [hnone] at hs
  cases hs

/-- Blanks at the end of a head belong to it. -/
theorem IsHead.append_blanks {front name blanks : List Char} (h : IsHead front name)
    (hblanks : ∀ c ∈ blanks, isInlineBlank c = true) : IsHead (front ++ blanks) name := by
  obtain ⟨gap, gap', rfl, hgap, hname, hne, hblank⟩ := h
  refine ⟨gap, gap' ++ blanks, by simp only [List.append_assoc], hgap, hname, ?_, fun c hc => ?_⟩
  · exact fun hnil => hne (List.append_eq_nil_iff.1 hnil).1
  · rcases List.mem_append.1 hc with hc | hc
    · exact hblank c hc
    · exact hblanks c hc

/-- A head is read from the new text exactly where it is read from the old one. -/
theorem defineHead?_exchange (hfits : Fits swaps cs) :
    defineHead? (exchange swaps cs)
      = (defineHead? cs).map fun (name, fromValue) => (name, putValue swaps fromValue) := by
  by_cases hswapped : Swapped swaps cs
  · obtain ⟨front, name, post, s, rfl, hfront, htight, hs, -, hnew⟩ := hswapped.split hfits
    have hold : defineHead? (front ++ (s.old ++ post)) = some (name, s.old ++ post) :=
      defineHead?_eq_some_iff.2 ⟨front, hfront, rfl, htight⟩
    rw [hold, hnew, Option.map_some]
    dsimp only
    rw [putValue_of_some hs]
    refine defineHead?_eq_some_iff.2
      ⟨front ++ (s.new ++ exchange swaps post).takeWhile isInlineBlank,
        hfront.append_blanks fun c hc => List.mem_takeWhile_imp hc, ?_,
        isTight_dropWhile _⟩
    rw [List.append_assoc, List.takeWhile_append_dropWhile]
  · cases hold : defineHead? cs with
    | some found =>
        obtain ⟨name, fromValue⟩ := found
        obtain ⟨front, hfront, rfl, htight⟩ := defineHead?_eq_some_iff.1 hold
        have hnone : swaps fromValue.length = none := by
          by_contra hsome
          obtain ⟨s, hs⟩ := Option.ne_none_iff_exists'.1 hsome
          exact hswapped ⟨name, fromValue, s, hold, hs⟩
        rw [exchange_front hfront htight hnone, Option.map_some]
        dsimp only
        rw [putValue_of_none hnone]
        exact defineHead?_eq_some_iff.2 ⟨front, hfront, rfl, isTight_exchange.2 htight⟩
    | none =>
        by_contra hsome
        rw [Option.map_none] at hsome
        obtain ⟨⟨name, fromValue⟩, hnew⟩ := Option.ne_none_iff_exists'.1 hsome
        obtain ⟨front, hfront, hsplit, htight⟩ := defineHead?_eq_some_iff.1 hnew
        obtain ⟨tail, rfl, htail⟩ := hfront.eq_cons
        cases cs with
        | nil =>
            rw [exchange_nil] at hsplit
            cases hsplit
        | cons c cs =>
            rw [exchange_cons hswapped, List.cons_append] at hsplit
            obtain ⟨rfl, hrest⟩ := List.cons.inj hsplit
            obtain ⟨ds, rfl, hds⟩ := exists_of_exchange_eq_append htail hrest
            rw [← hds, isTight_exchange] at htight
            have hhead : defineHead? ('#' :: (tail ++ ds)) = some (name, ds) :=
              defineHead?_eq_some_iff.2 ⟨'#' :: tail, hfront, rfl, htight⟩
            rw [hhead] at hold
            cases hold

end Configurator.Comment
