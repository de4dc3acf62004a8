import Configurator.Proofs.Comment.Reorder
import Configurator.Proofs.Header.Parsing
import Configurator.Proofs.Text.Cuts
import Mathlib.Data.List.Pairwise

/-!
# Where values can be rewritten

A value can be written differently without a change to what else a header declares if it stands outside
of comments and on a line of its own, and no comment opens in the value (`Placed`). If each value of a
header that differs from its text is placed so, writing the header is an exchange of values
(`toList_render`), and its defines are found again (`documentedDefines_render`).
-/

namespace Configurator

open Text

/-! ## Open comments -/

namespace Comment

/-- Whether a documentation block is open at the end of a text. -/
def inBlock (front : List Char) : Bool :=
  front.tails.any fun t =>
    (dropPrefix? ['/', '*', '*'] t).any fun inside => !contains ['*', '/'] inside

/-- Whether a line comment goes on at the end of a text. -/
def inLineComment (front : List Char) : Bool :=
  front.tails.any fun t => (dropPrefix? ['/', '/', '/'] t).any fun inside => !inside.contains '\n'

variable {front inside : List Char}

theorem contains_of_inBlock (h : inBlock front = false)
    (hinside : ['/', '*', '*'] ++ inside <:+ front) : contains ['*', '/'] inside = true := by
  have hall := List.any_eq_false.1 h _ ((List.mem_tails _ _).2 hinside)
  rw [dropPrefix?_eq_some_iff.2 rfl] at hall
  simpa using hall

theorem mem_of_inLineComment (h : inLineComment front = false)
    (hinside : ['/', '/', '/'] ++ inside <:+ front) : '\n' ∈ inside := by
  have hall := List.any_eq_false.1 h _ ((List.mem_tails _ _).2 hinside)
  rw [dropPrefix?_eq_some_iff.2 rfl] at hall
  simpa using hall

/-- A head is no part of the end of a block. -/
theorem contains_of_append_head {name : List Char} (hfront : IsHead front name)
    (h : contains ['*', '/'] (inside ++ front) = true) : contains ['*', '/'] inside = true := by
  rw [contains_eq_true_iff] at h ⊢
  obtain ⟨before, after, hsplit⟩ := h
  rcases List.append_eq_append_iff.1 hsplit with ⟨rest, hinside, -⟩ | ⟨rest, hover, hrest⟩
  · exact ⟨before, rest, hinside.symm⟩
  · by_cases hnil : rest = []
    · rw [hnil, List.append_nil] at hover
      exact ⟨before, [], by rw [List.append_nil, hover]⟩
    · have hlast := congrArg List.getLast? hover
      rw [List.getLast?_append_of_ne_nil _ (by simp), List.getLast?_append_of_ne_nil _ hnil] at hlast
      have hmem : '/' ∈ rest := List.mem_of_getLast? hlast.symm
      exact absurd (hrest ▸ List.mem_append_left _ hmem) hfront.slash_not_mem

end Comment

open Comment (Define IsHead IsPlain IsTight IsTrimmed Stands Style Swap Swapped defineHead?
  defineHead?_eq_some_iff documentedDefines endsValue exchange inBlock inLineComment)

namespace Header

variable {h : Header}

/-! ## Places of values -/

/-- Whether a value can be written anew in its place of a text: that is in no comment and behind no
other define on its line, and no comment opens in the old value or the new one. -/
structure Placed (source : List Char) (span : Span) (new : List Char) : Prop where
  block : inBlock (source.take span.start) = false
  comment : inLineComment (source.take span.start) = false
  line : ∀ d ∈ documentedDefines source, d.span.start < span.start →
    '\n' ∈ Span.slice source ⟨d.span.start, span.start⟩
  plain_old : IsPlain (Span.slice source span) (source.drop span.stop)
  plain_new : IsPlain new (source.drop span.stop)

/-- Whether a header writes a parameter as it stands in the text. -/
def keeps (h : Header) (p : Parameter) : Bool :=
  p.rendered.toList = Span.slice h.source.toList p.span

/-- Whether the parameters of a header have the places of documented defines, and can be written in
them. -/
structure Rewritable (h : Header) : Prop where
  documented : ∀ p ∈ h.params, ∃ d ∈ documentedDefines h.source.toList, d.span = p.span
  distinct : h.params.Pairwise fun p q => p.span.start ≠ q.span.start
  trimmed : ∀ p ∈ h.params, IsTrimmed p.rendered.toList
  placed : ∀ p ∈ h.params, h.keeps p = false →
    Placed h.source.toList p.span p.rendered.toList

/-- What a header writes differently, by places. -/
def swaps (h : Header) (place : Nat) : Option Swap :=
  (h.params.find? fun p => h.source.toList.length - p.span.start = place && !h.keeps p).map fun p =>
    ⟨Span.slice h.source.toList p.span, p.rendered.toList⟩

/-- Where the define of a parameter stands: `cs` is the text from its head on, and `post` the text
behind its value. -/
structure PlaceOf (h : Header) (p : Parameter) (cs post : List Char) : Prop where
  suffix : cs <:+ h.source.toList
  head : ∃ name, defineHead? cs = some (name, Span.slice h.source.toList p.span ++ post)
  trimmed : IsTrimmed (Span.slice h.source.toList p.span)
  line : '\n' ∉ Span.slice h.source.toList p.span
  ends : endsValue (post.dropWhile isInlineBlank) = true
  start : p.span.start + (Span.slice h.source.toList p.span ++ post).length
    = h.source.toList.length
  stop : p.span.stop + post.length = h.source.toList.length
  behind : h.source.toList.drop p.span.stop = post

theorem Rewritable.exists_placeOf (hw : h.Rewritable) {p : Parameter} (hp : p ∈ h.params) :
    ∃ cs post, h.PlaceOf p cs post := by
  obtain ⟨d, hd, hspan⟩ := hw.documented p hp
  obtain ⟨style, head, post, hstands⟩ := Comment.stands_of_mem hd
  obtain ⟨hslice, hdrop⟩ := hstands.slice_eq
  have hlen := hstands.length_value
  have hstop := hstands.stop
  rw [hspan] at hslice hdrop hlen hstop
  refine ⟨head, post, hstands.suffix, ⟨d.name.toList, ?_⟩, ?_, ?_,
    Style.endsValue_of_endsAt hstands.reads.ends, ?_, ?_, hdrop⟩
  · rw [hslice]
    exact hstands.name
  · rw [hslice]
    exact hstands.isTrimmed
  · rw [hslice]
    exact hstands.oneLine
  · rw [hslice, List.length_append]
    omega
  · omega

namespace PlaceOf

variable {p q : Parameter} {cs ds post post' : List Char}

/-- The parts of the text at the place of a parameter. -/
theorem split (hp : h.PlaceOf p cs post) : ∃ ahead front name,
    h.source.toList = ahead ++ cs ∧ cs = front ++ (Span.slice h.source.toList p.span ++ post)
      ∧ IsHead front name ∧ IsTight (Span.slice h.source.toList p.span ++ post)
      ∧ p.span.start = (ahead ++ front).length := by
  obtain ⟨name, hname⟩ := hp.head
  obtain ⟨front, hfront, hsplit, htight⟩ := defineHead?_eq_some_iff.1 hname
  obtain ⟨ahead, hahead⟩ := hp.suffix
  refine ⟨ahead, front, name, hahead.symm, hsplit, hfront, htight, ?_⟩
  have hstart := hp.start
  have hlen := congrArg List.length hahead
  rw [hsplit] at hlen
  simp only [List.length_append] at hlen hstart ⊢
  omega

/-- What opens in front of a define stands in front of its value, with a head behind it. -/
theorem exists_head (hp : h.PlaceOf p cs post) {part : List Char}
    (hpart : part ++ cs <:+ h.source.toList) :
    ∃ front name, IsHead front name ∧ part ++ front <:+ h.source.toList.take p.span.start := by
  obtain ⟨ahead, front, name, hsource, hsplit, hfront, -, hstart⟩ := hp.split
  refine ⟨front, name, hfront, ?_⟩
  obtain ⟨before, hbefore⟩ := hpart
  rw [hsource, ← List.append_assoc] at hbefore
  have hahead : before ++ part = ahead := List.append_cancel_right hbefore
  rw [hstart, hsource, hsplit, ← List.append_assoc, List.take_left, ← hahead, List.append_assoc]
  exact List.suffix_append before _

/-- A place determines the define. -/
theorem unique (hp : h.PlaceOf p cs post) (hq : h.PlaceOf q ds post')
    (hstart : p.span.start = q.span.start) : cs = ds := by
  obtain ⟨name, hname⟩ := hp.head
  obtain ⟨name', hname'⟩ := hq.head
  have hlen := hp.start
  have hlen' := hq.start
  have hlt := Comment.length_fromValue_lt_iff hp.suffix hq.suffix hname hname'
  have hgt := Comment.length_fromValue_lt_iff hq.suffix hp.suffix hname' hname
  exact Comment.eq_of_length_eq hp.suffix hq.suffix (by omega)

end PlaceOf

namespace Rewritable

variable {p q : Parameter} {cs post : List Char}

theorem eq_of_start_eq (hw : h.Rewritable) (hp : p ∈ h.params) (hq : q ∈ h.params)
    (hstart : p.span.start = q.span.start) : p = q := by
  have : Std.Symm fun p q : Parameter => p.span.start ≠ q.span.start := ⟨fun _ _ hne => hne.symm⟩
  by_contra hne
  exact hw.distinct.forall hp hq hne hstart

/-- At the place of a parameter that is not kept its new value is put. -/
theorem swaps_eq (hw : h.Rewritable) (hp : p ∈ h.params) (hplace : h.PlaceOf p cs post) :
    h.swaps (Span.slice h.source.toList p.span ++ post).length
      = if h.keeps p then none
        else some ⟨Span.slice h.source.toList p.span, p.rendered.toList⟩ := by
  have hstart := hplace.start
  have hone : ∀ q ∈ h.params, h.source.toList.length - q.span.start
      = (Span.slice h.source.toList p.span ++ post).length → q = p := by
    intro q hq heq
    obtain ⟨ds, post', hq'⟩ := hw.exists_placeOf hq
    have hstart' := hq'.start
    exact hw.eq_of_start_eq hq hp (by omega)
  cases hkeeps : h.keeps p with
  | true =>
      rw [if_pos rfl, swaps, Option.map_eq_none_iff, List.find?_eq_none]
      intro q hq hcond
      simp only [Bool.and_eq_true, decide_eq_true_eq, Bool.not_eq_true'] at hcond
      rw [hone q hq hcond.1, hkeeps] at hcond
      exact absurd hcond.2 (by decide)
  | false =>
      have hhere : (decide (h.source.toList.length - p.span.start
          = (Span.slice h.source.toList p.span ++ post).length) && !h.keeps p) = true := by
        rw [hkeeps, Bool.and_eq_true, decide_eq_true_eq]
        exact ⟨by omega, rfl⟩
      rw [if_neg (by decide), swaps]
      cases hfind : h.params.find? fun q => h.source.toList.length - q.span.start
          = (Span.slice h.source.toList p.span ++ post).length && !h.keeps q with
      | none =>
          exact absurd hhere (List.find?_eq_none.1 hfind p hp)
      | some q =>
          have hcond := List.find?_some hfind
          simp only [Bool.and_eq_true, decide_eq_true_eq] at hcond
          rw [Option.map_some, hone q (List.mem_of_find?_eq_some hfind) hcond.1]

/-- Where a value is exchanged stands a parameter that is not kept. -/
theorem exists_of_swapped (hw : h.Rewritable) (hcs : cs <:+ h.source.toList)
    (hswapped : Swapped h.swaps cs) :
    ∃ p ∈ h.params, h.keeps p = false ∧ ∃ post, h.PlaceOf p cs post := by
  obtain ⟨name, fromValue, s, hhead, hs⟩ := hswapped
  obtain ⟨p, hfind, -⟩ := Option.map_eq_some_iff.1 hs
  have hp := List.mem_of_find?_eq_some hfind
  have hcond := List.find?_some hfind
  simp only [Bool.and_eq_true, decide_eq_true_eq, Bool.not_eq_true'] at hcond
  obtain ⟨ds, post, hplace⟩ := hw.exists_placeOf hp
  refine ⟨p, hp, hcond.2, post, ?_⟩
  obtain ⟨name', hname⟩ := hplace.head
  have hstart := hplace.start
  have hlt := Comment.length_fromValue_lt_iff hplace.suffix hcs hname hhead
  have hgt := Comment.length_fromValue_lt_iff hcs hplace.suffix hhead hname
  have hle := (hcs.length_le)
  have hlen := Comment.defineHead?_length hhead
  rwa [Comment.eq_of_length_eq hcs hplace.suffix (by omega)]

theorem swap_fits (hw : h.Rewritable) (hp : p ∈ h.params) (hkeeps : h.keeps p = false)
    (hplace : h.PlaceOf p cs post) :
    Swap.Fits ⟨Span.slice h.source.toList p.span, p.rendered.toList⟩ post := by
  have hplaced := hw.placed p hp hkeeps
  have hold := hplaced.plain_old
  have hnew := hplaced.plain_new
  rw [hplace.behind] at hold hnew
  exact ⟨hplace.ends, hold, hnew, hplace.trimmed, hw.trimmed p hp⟩

/-- What opens in front of an exchanged value's head stands in front of the value of a parameter, with the
head behind it. -/
theorem exists_head_of_swapped (hw : h.Rewritable) {part : List Char}
    (hsuffix : part ++ cs <:+ h.source.toList) (hswapped : Swapped h.swaps cs) :
    ∃ p ∈ h.params, h.keeps p = false ∧ ∃ front name, IsHead front name
      ∧ part ++ front <:+ h.source.toList.take p.span.start := by
  have hcs : cs <:+ h.source.toList := (List.suffix_append part cs).trans hsuffix
  obtain ⟨p, hp, hkeeps, post, hplace⟩ := hw.exists_of_swapped hcs hswapped
  exact ⟨p, hp, hkeeps, hplace.exists_head hsuffix⟩

theorem sound (hw : h.Rewritable) : Comment.Sound h.swaps h.source.toList where
  fits := by
    intro cs name fromValue s hcs hhead hs
    obtain ⟨p, hp, hkeeps, post, hplace⟩ := hw.exists_of_swapped hcs ⟨name, fromValue, s, hhead, hs⟩
    obtain ⟨name', hname⟩ := hplace.head
    rw [hname, Option.some.injEq, Prod.mk.injEq] at hhead
    obtain ⟨rfl, rfl⟩ := hhead
    rw [hw.swaps_eq hp hplace, hkeeps, if_neg (by decide), Option.some.injEq] at hs
    subst hs
    exact ⟨post, rfl, hw.swap_fits hp hkeeps hplace⟩
  blocks := by
    intro inside cs hsuffix hswapped
    rw [← List.append_assoc] at hsuffix
    obtain ⟨p, hp, hkeeps, front, name, hfront, hpart⟩ := hw.exists_head_of_swapped hsuffix hswapped
    rw [List.append_assoc] at hpart
    exact Comment.contains_of_append_head hfront
      (Comment.contains_of_inBlock (hw.placed p hp hkeeps).block hpart)
  lines := by
    intro inside cs hsuffix hswapped
    rw [← List.append_assoc] at hsuffix
    obtain ⟨p, hp, hkeeps, front, name, hfront, hpart⟩ := hw.exists_head_of_swapped hsuffix hswapped
    rw [List.append_assoc] at hpart
    have hmem := Comment.mem_of_inLineComment (hw.placed p hp hkeeps).comment hpart
    exact (List.mem_append.1 hmem).resolve_right fun hin =>
      absurd (hfront.not_isLineEnd _ hin) (by decide)

/-- Between the value of another define and a head whose value is exchanged a line ends. -/
theorem lineFeed_mem (hw : h.Rewritable) {d : Define} (hd : d ∈ documentedDefines h.source.toList)
    {part : List Char} (hpart : h.source.toList.drop d.span.start = part ++ cs)
    (hswapped : Swapped h.swaps cs) : '\n' ∈ part := by
  have hsuffix : part ++ cs <:+ h.source.toList := hpart ▸ List.drop_suffix _ _
  have hcs := (List.suffix_append part cs).trans hsuffix
  obtain ⟨p, hp, hkeeps, post, hplace⟩ := hw.exists_of_swapped hcs hswapped
  obtain ⟨ahead, front, name, hsource, hsplit, hfront, -, hstart⟩ := hplace.split
  obtain ⟨style, head, post', hstands⟩ := Comment.stands_of_mem hd
  have hvalue := hstands.length_value
  have hlen := congrArg List.length hsource
  have hdroplen := congrArg List.length hpart
  obtain ⟨tail, htail, -⟩ := hfront.eq_cons
  have hfrontlen : 0 < front.length := by
    rw [htail]
    exact Nat.succ_pos _
  simp only [List.length_append, List.length_drop] at hstart hlen hdroplen
  have hslice : Span.slice h.source.toList ⟨d.span.start, p.span.start⟩ = part ++ front := by
    obtain ⟨before, hbefore⟩ := hsuffix
    have hbeforelen := congrArg List.length hbefore
    simp only [List.length_append] at hbeforelen
    have hwhole : before ++ ((part ++ front) ++ (Span.slice h.source.toList p.span ++ post))
        = h.source.toList := by
      rw [List.append_assoc part, ← hsplit]
      exact hbefore
    refine Span.slice_eq hwhole ?_ ?_
    · dsimp only
      omega
    · simp only [List.length_append]
      omega
  have hmem := (hw.placed p hp hkeeps).line d hd (by omega)
  rw [hslice] at hmem
  exact (List.mem_append.1 hmem).resolve_right fun hin =>
    absurd (hfront.not_isLineEnd _ hin) (by decide)

/-- The value of a parameter in front of one that is exchanged ends in front of that one's head. -/
theorem stop_le_head (hw : h.Rewritable) (hp : p ∈ h.params) (hq : q ∈ h.params)
    (hkeeps : h.keeps q = false) (hplace : h.PlaceOf q cs post) (hlt : p.span.start < q.span.start) :
    p.span.stop + cs.length ≤ h.source.toList.length := by
  obtain ⟨d, hd, hspan⟩ := hw.documented p hp
  obtain ⟨ds, behind, hfirst⟩ := hw.exists_placeOf hp
  obtain ⟨name, hname⟩ := hfirst.head
  obtain ⟨name', hname'⟩ := hplace.head
  have hstart := hfirst.start
  have hstart' := hplace.start
  have hstop := hfirst.stop
  obtain ⟨ahead, front, -, hsource, hsplit, -, -, hahead⟩ := hfirst.split
  have hdrop : h.source.toList.drop p.span.start = Span.slice h.source.toList p.span ++ behind := by
    have hwhole := hsource
    rw [hsplit, ← List.append_assoc] at hwhole
    rw [hahead]
    exact (congrArg (List.drop (ahead ++ front).length) hwhole).trans List.drop_left
  have hvalue : Span.slice h.source.toList p.span ++ behind <:+ h.source.toList :=
    hdrop ▸ List.drop_suffix _ _
  have hapart : cs.length ≤ (Span.slice h.source.toList p.span ++ behind).length :=
    Comment.heads_apart hfirst.suffix hplace.suffix hname hname' (by omega)
  obtain ⟨part, hpart⟩ := Comment.exists_append_of_length_le hvalue hplace.suffix hapart
  have hswapped : Swapped h.swaps cs :=
    ⟨name', _, _, hname', by rw [hw.swaps_eq hq hplace, hkeeps, if_neg (by decide)]⟩
  have hmem : '\n' ∈ part := by
    refine hw.lineFeed_mem hd ?_ hswapped
    rw [hspan, hdrop, hpart]
  rcases List.append_eq_append_iff.1 hpart with ⟨more, hmore, hbehind⟩ | ⟨more, hmore, -⟩
  · have hlen := congrArg List.length hbehind
    rw [List.length_append] at hlen
    omega
  · exact absurd (hmore ▸ List.mem_append_left more hmem) hfirst.line

/-! ## Writing a header -/

end Rewritable

/-- Up to a place in front of which nothing is exchanged the text is kept. -/
theorem exchange_drop {swaps : Nat → Option Swap} {source : List Char} {i j : Nat} (hij : i ≤ j)
    (hj : j ≤ source.length) (hkept : ∀ cs, cs <:+ source → Swapped swaps cs →
      i + cs.length ≤ source.length → j + cs.length ≤ source.length) :
    exchange swaps (source.drop i)
      = Span.slice source ⟨i, j⟩ ++ exchange swaps (source.drop j) := by
  rw [drop_eq_slice_append hij]
  refine Comment.exchange_append ?_
  intro t ht hne hswapped
  have hsuffix : t ++ source.drop j <:+ source.drop i := by
    obtain ⟨u, hu⟩ := ht
    rw [drop_eq_slice_append hij, ← hu, List.append_assoc]
    exact List.suffix_append u _
  have hlen := hsuffix.length_le
  have hpos := List.length_pos_of_ne_nil hne
  rw [List.length_drop] at hlen
  have hle := hkept _ (hsuffix.trans (List.drop_suffix _ _)) hswapped (by omega)
  rw [List.length_append, List.length_drop] at hle
  omega

namespace Rewritable

variable {p q : Parameter} {cs post : List Char}

/-- A value is exchanged together with the text from a place in front of its head on. -/
theorem exchange_drop_head (hw : h.Rewritable) (hp : p ∈ h.params) (hkeeps : h.keeps p = false)
    (hplace : h.PlaceOf p cs post) {cursor : Nat}
    (hcursor : cursor + cs.length ≤ h.source.toList.length)
    (hkept : ∀ ds, ds <:+ h.source.toList → Swapped h.swaps ds →
      cursor + ds.length ≤ h.source.toList.length → ds.length ≤ cs.length) :
    exchange h.swaps (h.source.toList.drop cursor)
      = Span.slice h.source.toList ⟨cursor, p.span.start⟩ ++ p.rendered.toList
        ++ exchange h.swaps (h.source.toList.drop p.span.stop) := by
  obtain ⟨ahead, front, name, hsource, hsplit, hfront, htight, hstart⟩ := hplace.split
  have hlen := congrArg List.length hsource
  have hstart' := hplace.start
  rw [List.length_append] at hlen hstart
  have hcs : h.source.toList.drop ahead.length = cs := by
    exact (congrArg (List.drop ahead.length) hsource).trans List.drop_left
  have hfrontslice : Span.slice h.source.toList ⟨ahead.length, p.span.start⟩ = front := by
    refine Span.slice_eq (hsplit ▸ hsource).symm rfl ?_
    dsimp only
    omega
  have hswap := hw.swaps_eq hp hplace
  rw [hkeeps, if_neg (by decide)] at hswap
  have hgap : Span.slice h.source.toList ⟨cursor, p.span.start⟩
      = Span.slice h.source.toList ⟨cursor, ahead.length⟩ ++ front := by
    rw [← hfrontslice, slice_append (by omega) (by omega)]
  have hput : exchange h.swaps cs = front ++ (p.rendered.toList ++ exchange h.swaps post) := by
    rw [hsplit]
    exact Comment.exchange_head (s := ⟨_, p.rendered.toList⟩) hfront htight hswap
  rw [exchange_drop (show cursor ≤ ahead.length by omega) (by omega) fun ds hds hswapped hlow => by
      have := hkept ds hds hswapped hlow
      omega,
    hcs, hput, hplace.behind, hgap]
  simp only [List.append_assoc]

end Rewritable

/-- What holds while the edits of a header are spliced in, from a place on: those that are left come in
the order of the text, and among them are all that the header does not keep behind that place. -/
structure EditsLeft (h : Header) (cursor : Nat) (es : List (Span × List Char)) : Prop where
  edits : ∀ e ∈ es, ∃ p ∈ h.params, e = (p.span, p.rendered.toList)
  sorted : es.Pairwise fun x e => x.1.start < e.1.start
  bound : cursor ≤ h.source.toList.length
  left : ∀ p ∈ h.params, h.keeps p = false → ∀ cs post, h.PlaceOf p cs post →
    cursor + cs.length ≤ h.source.toList.length → (p.span, p.rendered.toList) ∈ es
  ahead : ∀ p ∈ h.params, h.keeps p = false → ∀ cs post, h.PlaceOf p cs post →
    (p.span, p.rendered.toList) ∈ es → cursor ≤ p.span.start →
      cursor + cs.length ≤ h.source.toList.length

namespace EditsLeft

variable {p q : Parameter} {es : List (Span × List Char)} {cs post : List Char} {cursor : Nat}

/-- The first edit is put in front of all places that come later. -/
theorem mem_tail (hplace : h.PlaceOf q cs post)
    (hlen : p.span.start + cs.length ≤ h.source.toList.length)
    (hmem : (q.span, q.rendered.toList) ∈ (p.span, p.rendered.toList) :: es) :
    (q.span, q.rendered.toList) ∈ es := by
  refine (List.mem_cons.1 hmem).resolve_left ?_
  intro heq
  obtain ⟨name, hname⟩ := hplace.head
  have hlonger := Comment.defineHead?_length hname
  have hstart := hplace.start
  have hspan := congrArg Span.start (Prod.mk.inj heq).1
  omega

/-- An edit that starts in front of the cursor is passed over. -/
theorem skip (hleft : h.EditsLeft cursor ((p.span, p.rendered.toList) :: es))
    (hskip : p.span.start < cursor) : h.EditsLeft cursor es where
  edits := fun e he => hleft.edits e (List.mem_cons_of_mem _ he)
  sorted := (List.pairwise_cons.1 hleft.sorted).2
  bound := hleft.bound
  left := fun q hq hkeeps cs post hplace hlen =>
    mem_tail hplace (by omega) (hleft.left q hq hkeeps cs post hplace hlen)
  ahead := fun q hq hkeeps cs post hplace hmem =>
    hleft.ahead q hq hkeeps cs post hplace (List.mem_cons_of_mem _ hmem)

/-- Any other one is put in, and the cursor is moved behind it. -/
theorem put (hw : h.Rewritable) (hleft : h.EditsLeft cursor ((p.span, p.rendered.toList) :: es))
    (hp : p ∈ h.params) (hplace : h.PlaceOf p cs post) (hput : cursor ≤ p.span.start) :
    h.EditsLeft p.span.stop es := by
  obtain ⟨hfirst, hsorted⟩ := List.pairwise_cons.1 hleft.sorted
  have hstart := hplace.start
  have hstop := hplace.stop
  rw [List.length_append] at hstart
  refine ⟨fun e he => hleft.edits e (List.mem_cons_of_mem _ he), hsorted, by omega, ?_, ?_⟩
  · intro q hq hkeeps ds behind hbehind hlen
    exact mem_tail hbehind (by omega) (hleft.left q hq hkeeps ds behind hbehind (by omega))
  · intro q hq hkeeps ds behind hbehind hmem _
    exact hw.stop_le_head hp hq hkeeps hbehind (hfirst _ hmem)

/-- What is exchanged behind the cursor is the first value that is left or stands behind it. -/
theorem swapped_cases (hw : h.Rewritable)
    (hleft : h.EditsLeft cursor ((p.span, p.rendered.toList) :: es)) (hp : p ∈ h.params)
    (hcs : cs <:+ h.source.toList) (hswapped : Swapped h.swaps cs)
    (hlow : cursor + cs.length ≤ h.source.toList.length) :
    (h.keeps p = false ∧ ∃ post, h.PlaceOf p cs post)
      ∨ p.span.stop + cs.length ≤ h.source.toList.length := by
  obtain ⟨q, hq, hkeeps, behind, hbehind⟩ := hw.exists_of_swapped hcs hswapped
  rcases List.mem_cons.1 (hleft.left q hq hkeeps _ behind hbehind hlow) with heq | hmem
  · have hspan := congrArg Span.start (Prod.mk.inj heq).1
    obtain rfl := hw.eq_of_start_eq hq hp hspan
    exact .inl ⟨hkeeps, behind, hbehind⟩
  · have hfirst := (List.pairwise_cons.1 hleft.sorted).1
    exact .inr (hw.stop_le_head hp hq hkeeps hbehind (hfirst _ hmem))

/-- Splicing in the first value that is left is an exchange of it. -/
theorem exchange_first (hw : h.Rewritable)
    (hleft : h.EditsLeft cursor ((p.span, p.rendered.toList) :: es)) (hp : p ∈ h.params)
    (hplace : h.PlaceOf p cs post) (hput : cursor ≤ p.span.start) :
    exchange h.swaps (h.source.toList.drop cursor)
      = Span.slice h.source.toList ⟨cursor, p.span.start⟩ ++ p.rendered.toList
        ++ exchange h.swaps (h.source.toList.drop p.span.stop) := by
  have hstart := hplace.start
  have hstop := hplace.stop
  rw [List.length_append] at hstart
  cases hkeeps : h.keeps p with
  | true =>
      have hsame : p.rendered.toList = Span.slice h.source.toList ⟨p.span.start, p.span.stop⟩ := by
        simpa [keeps] using hkeeps
      rw [hsame, slice_append hput (by omega)]
      refine exchange_drop (by omega) (by omega) ?_
      intro ds hds hswapped hlow
      refine (hleft.swapped_cases hw hp hds hswapped hlow).resolve_left ?_
      rintro ⟨hnot, -⟩
      rw [hkeeps] at hnot
      cases hnot
  | false =>
      have hhead := hleft.ahead p hp hkeeps cs post hplace List.mem_cons_self hput
      refine hw.exchange_drop_head hp hkeeps hplace hhead ?_
      intro ds hds hswapped hlow
      rcases hleft.swapped_cases hw hp hds hswapped hlow with ⟨-, post', hsame⟩ | hle
      · rw [hsame.unique hplace rfl]
      · obtain ⟨name, hname⟩ := hplace.head
        have hlonger := Comment.defineHead?_length hname
        rw [List.length_append] at hlonger
        omega

/-- Splicing in the edits that are left is an exchange of the values behind the cursor. -/
theorem splice_eq (hw : h.Rewritable) (hleft : h.EditsLeft cursor es) :
    splice h.source.toList cursor es = exchange h.swaps (h.source.toList.drop cursor) := by
  induction es generalizing cursor with
  | nil =>
      rw [exchange_drop hleft.bound (Nat.le_refl _) fun cs hcs hswapped hlow => ?_, List.drop_length,
        Comment.exchange_nil, List.append_nil, splice, Span.slice, List.take_length]
      obtain ⟨p, hp, hkeeps, post, hplace⟩ := hw.exists_of_swapped hcs hswapped
      exact absurd (hleft.left p hp hkeeps cs post hplace hlow) List.not_mem_nil
  | cons e es ih =>
      obtain ⟨p, hp, rfl⟩ := hleft.edits e List.mem_cons_self
      obtain ⟨cs, post, hplace⟩ := hw.exists_placeOf hp
      have hstop := hplace.stop
      rcases Nat.lt_or_ge p.span.start cursor with hskip | hput
      · rw [splice_of_lt hskip]
        exact ih (hleft.skip hskip)
      · rw [splice_of_le (by dsimp only; omega) hput, ih (hleft.put hw hp hplace hput)]
        exact (hleft.exchange_first hw hp hplace hput).symm

end EditsLeft

namespace Rewritable

/-- Writing a header exchanges the values that it does not keep. -/
theorem toList_render (hw : h.Rewritable) :
    h.render.toList = exchange h.swaps h.source.toList := by
  have hleft : h.EditsLeft 0 h.edits := by
    refine ⟨fun e he => exists_of_mem_edits he, pairwise_edits_of_distinct hw.distinct,
      Nat.zero_le _, fun p hp _ _ _ _ _ => mem_edits hp, ?_⟩
    intro p _ _ cs post hplace _ _
    rw [Nat.zero_add]
    exact hplace.suffix.length_le
  rw [render, String.toList_ofList]
  exact hleft.splice_eq hw

/-- The documented defines of a header that is written are those of its text with their new values. -/
theorem documentedDefines_render (hw : h.Rewritable) :
    List.Forall₂ (Define.Follows h.swaps h.source.toList.length)
      (documentedDefines h.source.toList) (documentedDefines h.render.toList) := by
  rw [hw.toList_render]
  refine Comment.documentedDefines_exchange hw.sound ?_
  intro d hd part ds hpart hswapped
  exact hw.lineFeed_mem hd hpart hswapped

end Rewritable

end Header

end Configurator
