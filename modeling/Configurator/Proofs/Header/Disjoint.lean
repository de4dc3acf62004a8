import Mathlib.Data.List.Intervals
import Configurator.Proofs.Header.RoundTrip
import Configurator.Proofs.Text.Replacement

/-!
# Values apart from each other

A value can only begin within another one if a whole define stands in that, on the same line. Where each
line has one define at most, the values of a header are apart (`pairwise_apart`), and so `splice` passes
over none of them: what is written has the present value of each parameter where its value begins, and
outside of the values it has the characters of the text (`render_eq_flatMap`).
-/

namespace Configurator

/-! ## Words on lines -/

namespace Text

/-- How often a word begins in a text. -/
def occurrences (word : List Char) : List Char → Nat
  | [] => 0
  | c :: cs => occurrences word cs + if word.isPrefixOf (c :: cs) then 1 else 0

variable {word : List Char}

theorem occurrences_le_append (before cs : List Char) :
    occurrences word cs ≤ occurrences word (before ++ cs) := by
  induction before with
  | nil => exact Nat.le_refl _
  | cons c before ih => exact ih.trans (Nat.le_add_right _ _)

theorem occurrences_lt_append (hne : word ≠ []) (rest : List Char) :
    occurrences word rest < occurrences word (word ++ rest) := by
  obtain ⟨w, tail, rfl⟩ := List.exists_cons_of_ne_nil hne
  have hstands : (w :: tail).isPrefixOf (w :: (tail ++ rest)) = true :=
    List.isPrefixOf_iff_prefix.2 (List.prefix_append (w :: tail) rest)
  rw [List.cons_append, occurrences, if_pos hstands]
  exact Nat.lt_succ_of_le (occurrences_le_append tail rest)

/-- A stretch without line feeds is part of one line. -/
theorem exists_line_of_infix {stretch cs : List Char} (hstretch : '\n' ∉ stretch)
    (hin : stretch <:+: cs) : ∃ line ∈ cs.splitOn '\n', stretch <:+: line := by
  induction hlen : cs.length using Nat.strongRecOn generalizing cs with
  | ind length ih =>
      by_cases hfeed : '\n' ∈ cs
      · obtain ⟨left, right, rfl⟩ := List.append_of_mem hfeed
        rw [List.length_append, List.length_cons] at hlen
        rw [List.splitOn_append_cons_self]
        rcases infix_of_infix_append_cons hstretch hin with hleft | hright
        · obtain ⟨line, hline, hpart⟩ := ih left.length (by omega) hleft rfl
          exact ⟨line, List.mem_append_left _ hline, hpart⟩
        · obtain ⟨line, hline, hpart⟩ := ih right.length (by omega) hright rfl
          exact ⟨line, List.mem_append_right _ hline, hpart⟩
      · exact ⟨cs, by rw [List.splitOn_eq_singleton hfeed, List.mem_singleton], hin⟩

end Text

open Text

namespace Comment

/-- Whether no line of a text has the word of a define more than once. -/
def OneDefineALine (text : List Char) : Prop :=
  ∀ line ∈ text.splitOn '\n', occurrences defineWord line ≤ 1

instance (text : List Char) : Decidable (OneDefineALine text) :=
  inferInstanceAs (Decidable (∀ line ∈ text.splitOn '\n', occurrences defineWord line ≤ 1))

variable {text : List Char} {d e : Define} {style style' : Style} {head head' post post' : List Char}

theorem IsHead.exists_append {front name : List Char} (h : IsHead front name) :
    ∃ rest, front = defineWord ++ rest := by
  obtain ⟨gap, gap', rfl, -⟩ := h
  exact ⟨gap ++ name ++ gap', by simp only [List.append_assoc]⟩

/-- If a value begins within another one, the head of its define stands in that in front of it. -/
theorem Stands.exists_head_within (h : Stands text d style head post)
    (h' : Stands text e style' head' post') (hlt : d.span.start < e.span.start)
    (hin : e.span.start < d.span.stop) :
    ∃ u front t, IsHead front e.name.toList ∧ d.value.toList = u ++ (front ++ t) := by
  have hlen := h.length_value
  have hlen' := h'.length_value
  have hstop := h.stop
  have hapart := heads_apart h.suffix h'.suffix h.name h'.name
    (by simp only [List.length_append]; omega)
  have hhead' := h'.length_lt_head
  rw [List.length_append] at hapart
  obtain ⟨u, part, hvalue, -, hpart⟩ :=
    exists_split_of_between h.value_suffix h'.suffix (by omega) hapart
  obtain ⟨front, hfront, hsplit, -⟩ := defineHead?_eq_some_iff.1 h'.name
  obtain ⟨t, rfl⟩ : front <+: part := by
    have hends := hpart.symm.trans hsplit
    refine List.prefix_of_prefix_length_le ⟨_, hends.symm⟩ (List.prefix_append part post) ?_
    have hsizes := congrArg List.length hends
    simp only [List.length_append] at hsizes
    omega
  exact ⟨u, front, t, hfront, hvalue⟩

/-- Where each line has one define at most, a value ends in front of the next one. -/
theorem Stands.stop_le_start (h : Stands text d style head post)
    (h' : Stands text e style' head' post') (hone : OneDefineALine text)
    (hlt : d.span.start < e.span.start) : d.span.stop ≤ e.span.start := by
  by_contra hin
  obtain ⟨u, front', t, hfront', hvalue⟩ := h.exists_head_within h' hlt (by omega)
  obtain ⟨front, hfront, hhead, -⟩ := defineHead?_eq_some_iff.1 h.name
  -- from the word of the one define to that of the other there is no line feed
  have hline : '\n' ∉ front ++ d.value.toList := by
    intro hmem
    rcases List.mem_append.1 hmem with hmem | hmem
    · exact absurd (hfront.not_isLineEnd _ hmem) (by decide)
    · exact h.oneLine hmem
  have hwithin : front ++ d.value.toList <:+: text := by
    have hsuffix := h.suffix
    rw [hhead, ← List.append_assoc] at hsuffix
    exact (List.prefix_append _ _).isInfix.trans hsuffix.isInfix
  obtain ⟨line, hmem, before, after, hbefore⟩ := exists_line_of_infix hline hwithin
  obtain ⟨rest, rfl⟩ := hfront.exists_append
  obtain ⟨rest', rfl⟩ := hfront'.exists_append
  have hsplit : line = before ++ (defineWord ++ ((rest ++ u)
      ++ (defineWord ++ (rest' ++ t ++ after)))) := by
    rw [← hbefore, hvalue]
    simp only [List.append_assoc]
  have hne : defineWord ≠ [] := List.cons_ne_nil _ _
  have htwo : 1 < occurrences defineWord line :=
    calc 1 ≤ occurrences defineWord (rest' ++ t ++ after) + 1 := Nat.le_add_left _ _
      _ ≤ occurrences defineWord (defineWord ++ (rest' ++ t ++ after)) :=
        occurrences_lt_append hne _
      _ ≤ occurrences defineWord ((rest ++ u) ++ (defineWord ++ (rest' ++ t ++ after))) :=
        occurrences_le_append _ _
      _ < occurrences defineWord
          (defineWord ++ ((rest ++ u) ++ (defineWord ++ (rest' ++ t ++ after)))) :=
        occurrences_lt_append hne _
      _ ≤ occurrences defineWord line := hsplit ▸ occurrences_le_append before _
  exact absurd (hone line hmem) (Nat.not_le.2 htwo)

end Comment

/-! ## Stretches of a text -/

namespace Span

/-- Whether two stretches have no place in common, and none of them begins or ends within the other. -/
def Apart (s t : Span) : Prop :=
  s.stop ≤ t.start ∨ t.stop ≤ s.start

/-- Whether a stretch lies in a text, and so begins and ends where characters do, also when it is
counted in bytes. -/
def IsIn (s : Span) (text : List Char) : Prop :=
  ∃ before part after, text = before ++ part ++ after
    ∧ s = ⟨before.length, (before ++ part).length⟩
    ∧ s.bytes text = (byteSize before, byteSize (before ++ part))

variable {s t : Span} {text : List Char}

theorem Apart.symm (h : s.Apart t) : t.Apart s :=
  Or.symm h

theorem isIn_of_le (hle : s.start ≤ s.stop) (hstop : s.stop ≤ text.length) : s.IsIn text := by
  have hbefore : text.take s.stop = text.take s.start ++ Span.slice text s := by
    have h := (List.take_append_drop s.start (text.take s.stop)).symm
    rwa [List.take_take, Nat.min_eq_left hle] at h
  have hstart := List.length_take_of_le (hle.trans hstop)
  refine ⟨text.take s.start, Span.slice text s, text.drop s.stop, ?_, ?_, ?_⟩
  · rw [← hbefore, List.take_append_drop]
  · rw [← hbefore, hstart, List.length_take_of_le hstop]
  · rw [← hbefore]
    rfl

theorem byteOffset_le {i j : Nat} (hij : i ≤ j) : byteOffset text i ≤ byteOffset text j := by
  have hsplit := List.take_append_drop i (text.take j)
  rw [List.take_take, Nat.min_eq_left hij] at hsplit
  rw [byteOffset, byteOffset, ← hsplit, byteSize_append]
  exact Nat.le_add_right _ _

/-- Stretches that are apart are so in bytes as well. -/
theorem Apart.bytes (h : s.Apart t) (text : List Char) :
    (s.bytes text).2 ≤ (t.bytes text).1 ∨ (t.bytes text).2 ≤ (s.bytes text).1 :=
  h.imp byteOffset_le byteOffset_le

end Span

namespace Header

/-! ## Replacing at places -/

/-- What stands at a place of a text when stretches are replaced: the texts for the stretches that begin
there, and the character unless a stretch covers it. -/
def replacedAt (source : List Char) (edits : List (Span × List Char)) (i : Nat) : List Char :=
  (edits.filter (·.1.start = i)).flatMap (·.2)
    ++ if ∃ e ∈ edits, e.1.start ≤ i ∧ i < e.1.stop then [] else source[i]?.toList

section Places

variable {source : List Char} {e : Span × List Char} {es fs : List (Span × List Char)} {cursor i : Nat}

/-- Where no stretch begins and none covers the character, it stays. -/
theorem replacedAt_of_lt (h : ∀ e ∈ es, i < e.1.start) :
    replacedAt source es i = source[i]?.toList := by
  have hnone : es.filter (·.1.start = i) = [] :=
    List.filter_eq_nil_iff.2 fun e he => by simpa using (h e he).ne'
  have hcover : ¬ ∃ e ∈ es, e.1.start ≤ i ∧ i < e.1.stop := by
    rintro ⟨e, he, hle, -⟩
    exact absurd (h e he) (Nat.not_lt.2 hle)
  rw [replacedAt, hnone, if_neg hcover]
  rfl

/-- From the beginning of a stretch on its text comes first, then nothing up to its end, and then what
the others leave. -/
theorem replacedAt_cons_of_le (hes : ∀ x ∈ es, e.1.stop ≤ x.1.start) (hi : e.1.start ≤ i) :
    replacedAt source (e :: es) i
      = (if e.1.start = i then e.2 else [])
        ++ if i < e.1.stop then [] else replacedAt source es i := by
  have hputs : ((e :: es).filter (·.1.start = i)).flatMap (·.2)
      = (if e.1.start = i then e.2 else []) ++ (es.filter (·.1.start = i)).flatMap (·.2) := by
    by_cases h : e.1.start = i <;> simp [h]
  rw [replacedAt, hputs, List.append_assoc, List.append_cancel_left_eq]
  by_cases hcover : i < e.1.stop
  · have hnone : es.filter (·.1.start = i) = [] :=
      List.filter_eq_nil_iff.2 fun x hx => by simpa using (hcover.trans_le (hes x hx)).ne'
    rw [if_pos hcover, hnone, if_pos ⟨e, List.mem_cons_self, hi, hcover⟩]
    rfl
  · have hnot : ¬ (e.1.start ≤ i ∧ i < e.1.stop) := fun h => hcover h.2
    rw [if_neg hcover, replacedAt]
    simp only [List.exists_mem_cons_iff, hnot, false_or]

/-- A list that can have one item at most is the only one with its items. -/
theorem eq_of_perm_of_pairwise {α : Type} {R : α → α → Prop} {xs ys : List α} (hperm : xs.Perm ys)
    (hpair : xs.Pairwise R) (hnot : ∀ x ∈ xs, ∀ y ∈ xs, ¬ R x y) : xs = ys := by
  match xs with
  | [] => exact (List.nil_perm.1 hperm).symm
  | [x] => exact List.singleton_perm.1 hperm
  | x :: y :: rest =>
      exact absurd ((List.pairwise_cons.1 hpair).1 y List.mem_cons_self)
        (hnot x List.mem_cons_self y (by simp))

/-- The order of stretches that begin at different places does not matter. -/
theorem replacedAt_perm (hperm : es.Perm fs)
    (hdistinct : es.Pairwise fun x e => x.1.start ≠ e.1.start) :
    replacedAt source es i = replacedAt source fs i := by
  have hsame : es.filter (·.1.start = i) = fs.filter (·.1.start = i) := by
    refine eq_of_perm_of_pairwise (hperm.filter _) (hdistinct.filter _) fun x hx y hy hne => hne ?_
    simp only [List.mem_filter, decide_eq_true_eq] at hx hy
    rw [hx.2, hy.2]
  simp only [replacedAt, hsame, hperm.mem_iff]

theorem flatMap_getElem?_Ico {i j : Nat} (hij : i ≤ j) :
    (List.Ico i j).flatMap (fun k => source[k]?.toList) = Span.slice source ⟨i, j⟩ := by
  induction j, hij using Nat.le_induction with
  | base => simp [Span.slice]
  | succ j hij ih =>
      have hnext : Span.slice source ⟨j, j + 1⟩ = source[j]?.toList := by
        rw [Span.slice, List.drop_take, Nat.add_sub_cancel_left, List.take_one, List.head?_drop]
      rw [List.Ico.succ_top hij, List.flatMap_append, ih, List.flatMap_singleton, ← hnext,
        slice_append hij (Nat.le_succ j)]

/-- From where a stretch begins on its text stands first, and then what is behind it. -/
theorem flatMap_replacedAt_cons (hes : ∀ x ∈ es, e.1.stop ≤ x.1.start) (hle : e.1.start ≤ e.1.stop)
    (hstop : e.1.stop ≤ source.length) :
    (List.Ico e.1.start (source.length + 1)).flatMap (replacedAt source (e :: es))
      = e.2 ++ (List.Ico e.1.stop (source.length + 1)).flatMap (replacedAt source es) := by
  set others : Nat → List Char := fun i => if i < e.1.stop then [] else replacedAt source es i
  have hfirst : replacedAt source (e :: es) e.1.start = e.2 ++ others e.1.start := by
    rw [replacedAt_cons_of_le hes (Nat.le_refl _), if_pos rfl]
  have hlater : ∀ i ∈ List.Ico (e.1.start + 1) (source.length + 1),
      replacedAt source (e :: es) i = others i := by
    intro i hi
    rw [List.Ico.mem] at hi
    rw [replacedAt_cons_of_le hes (by omega), if_neg (by omega), List.nil_append]
  have hcovered : (List.Ico e.1.start e.1.stop).flatMap others = [] := by
    refine List.flatMap_eq_nil_iff.2 fun i hi => if_pos ?_
    exact (List.Ico.mem.1 hi).2
  have hbehind : (List.Ico e.1.stop (source.length + 1)).flatMap others
      = (List.Ico e.1.stop (source.length + 1)).flatMap (replacedAt source es) := by
    refine List.flatMap_congr fun i hi => if_neg ?_
    exact Nat.not_lt.2 (List.Ico.mem.1 hi).1
  calc (List.Ico e.1.start (source.length + 1)).flatMap (replacedAt source (e :: es))
      = e.2 ++ (List.Ico e.1.start (source.length + 1)).flatMap others := by
        rw [List.Ico.eq_cons (by omega), List.flatMap_cons, List.flatMap_cons, hfirst,
          List.flatMap_congr hlater, List.append_assoc]
    _ = e.2 ++ (List.Ico e.1.stop (source.length + 1)).flatMap (replacedAt source es) := by
        rw [← List.Ico.append_consecutive hle (by omega), List.flatMap_append, hcovered, hbehind,
          List.nil_append]

/-- A text with stretches replaced that are apart, place by place. -/
theorem splice_eq_flatMap (hcursor : cursor ≤ source.length)
    (hes : ∀ e ∈ es, cursor ≤ e.1.start ∧ e.1.start ≤ e.1.stop ∧ e.1.stop ≤ source.length)
    (hsorted : es.Pairwise fun x e => x.1.start < e.1.start ∧ x.1.stop ≤ e.1.start) :
    splice source cursor es
      = (List.Ico cursor (source.length + 1)).flatMap (replacedAt source es) := by
  induction es generalizing cursor with
  | nil =>
      have hstays : replacedAt source [] = fun i => source[i]?.toList :=
        funext fun i => replacedAt_of_lt (by simp)
      rw [splice, hstays, flatMap_getElem?_Ico (Nat.le_succ_of_le hcursor),
        drop_eq_slice_append (Nat.le_succ_of_le hcursor), List.drop_eq_nil_of_le (Nat.le_succ _),
        List.append_nil]
  | cons e es ih =>
      obtain ⟨hnext, hsorted'⟩ := List.pairwise_cons.1 hsorted
      obtain ⟨hstart, hle, hstop⟩ := hes e List.mem_cons_self
      have hafter : ∀ x ∈ es, e.1.stop ≤ x.1.start := fun x hx => (hnext x hx).2
      have hbefore : (List.Ico cursor e.1.start).flatMap (replacedAt source (e :: es))
          = Span.slice source ⟨cursor, e.1.start⟩ := by
        rw [← flatMap_getElem?_Ico hstart]
        refine List.flatMap_congr fun i hi => replacedAt_of_lt ?_
        rw [List.Ico.mem] at hi
        exact List.forall_mem_cons.2 ⟨hi.2, fun x hx => hi.2.trans (hnext x hx).1⟩
      have hrest : (List.Ico e.1.start (source.length + 1)).flatMap (replacedAt source (e :: es))
          = e.2 ++ (List.Ico e.1.stop (source.length + 1)).flatMap (replacedAt source es) :=
        flatMap_replacedAt_cons hafter hle hstop
      rw [splice_of_le hstop hstart, ih hstop (fun x hx => ⟨hafter x hx, ?_⟩) hsorted',
        ← List.Ico.append_consecutive hstart (by omega), List.flatMap_append, hbefore, hrest,
        List.append_assoc]
      exact (hes x (List.mem_cons_of_mem e hx)).2

end Places

/-! ## Headers -/

/-- The header with a value and suffixes for each of its parameters, by name. -/
def assign (h : Header) (value : String → String) (long unsigned : String → Bool) : Header :=
  h.mapParams fun p =>
    { p with value := value p.name, long := long p.name, unsigned := unsigned p.name }

variable {path source : String} {h : Header}

theorem isIn_of_mem_params (hparse : Header.parse path source = .ok h) {p : Parameter}
    (hp : p ∈ h.params) : p.span.start ≤ p.span.stop ∧ p.span.stop ≤ source.toList.length := by
  have hrespells := respells_of_mem hparse hp
  exact ⟨hrespells.start_le, hrespells.stop_le⟩

/-- Where each line has one define at most, a value ends in front of the next one. -/
theorem stop_le_start_of_lt (hparse : Header.parse path source = .ok h)
    (hone : Comment.OneDefineALine source.toList) {p q : Parameter} (hp : p ∈ h.params)
    (hq : q ∈ h.params) (hlt : p.span.start < q.span.start) : p.span.stop ≤ q.span.start := by
  obtain ⟨d, style, head, post, hpd, hstands⟩ := exists_stands hparse hp
  obtain ⟨e, style', head', post', hqe, hstands'⟩ := exists_stands hparse hq
  rw [Parameter.span_ofDefine hpd, Parameter.span_ofDefine hqe] at *
  exact hstands.stop_le_start hstands' hone hlt

theorem pairwise_apart (hparse : Header.parse path source = .ok h)
    (hone : Comment.OneDefineALine source.toList) :
    h.params.Pairwise fun p q => p.span.Apart q.span := by
  refine (pairwise_params hparse).imp_of_mem fun {p q} hp hq hne => ?_
  rcases Nat.lt_or_gt_of_ne hne with hlt | hgt
  · exact .inl (stop_le_start_of_lt hparse hone hp hq hlt)
  · exact .inr (stop_le_start_of_lt hparse hone hq hp hgt)

/-- A header whose values lie in its text and apart from each other is written place by place. -/
theorem render_eq_flatMap
    (hin : ∀ p ∈ h.params, p.span.start ≤ p.span.stop ∧ p.span.stop ≤ h.source.toList.length)
    (hdistinct : h.params.Pairwise fun p q => p.span.start ≠ q.span.start)
    (hapart : h.params.Pairwise fun p q => p.span.Apart q.span) :
    h.render.toList = (List.range (h.source.toList.length + 1)).flatMap
      (replacedAt h.source.toList (h.params.map fun p => (p.span, p.rendered.toList))) := by
  have hperm : h.edits.Perm (h.params.map fun p => (p.span, p.rendered.toList)) :=
    List.mergeSort_perm _ _
  have hedits : ∀ e ∈ h.edits, e.1.start ≤ e.1.stop ∧ e.1.stop ≤ h.source.toList.length := by
    intro e he
    obtain ⟨p, hp, rfl⟩ := exists_of_mem_edits he
    exact hin p hp
  have hsorted := pairwise_edits_of_distinct hdistinct
  have hapart' : h.edits.Pairwise fun x e => x.1.Apart e.1 :=
    (hperm.pairwise_iff fun hxe => hxe.symm).2 (List.pairwise_map.2 hapart)
  have hordered : h.edits.Pairwise fun x e => x.1.start < e.1.start ∧ x.1.stop ≤ e.1.start := by
    refine (hsorted.and hapart').imp_of_mem fun {x e} _ he ⟨hlt, hxe⟩ => ⟨hlt, ?_⟩
    have hle := (hedits e he).1
    rcases hxe with hxe | hxe
    · exact hxe
    · omega
  rw [render, String.toList_ofList, splice_eq_flatMap (Nat.zero_le _)
    (fun e he => ⟨Nat.zero_le _, hedits e he⟩) hordered, List.Ico.zero_bot]
  exact List.flatMap_congr fun i _ => replacedAt_perm hperm (hsorted.imp Nat.ne_of_lt)

/-- Where each line of a header has one define at most, the values lie in the text and apart from each
other. Whatever values and suffixes the parameters then get, each is written where its value begins, and
outside of the values the text stays. -/
theorem render_assign (hparse : Header.parse path source = .ok h)
    (hone : Comment.OneDefineALine source.toList) (value : String → String)
    (long unsigned : String → Bool) :
    (∀ p ∈ h.params, p.span.IsIn source.toList)
      ∧ h.params.Pairwise (fun p q => p.span.Apart q.span
        ∧ ((p.span.bytes source.toList).2 ≤ (q.span.bytes source.toList).1
          ∨ (q.span.bytes source.toList).2 ≤ (p.span.bytes source.toList).1))
      ∧ (h.assign value long unsigned).render.toList
        = (List.range (source.toList.length + 1)).flatMap
            (replacedAt source.toList
              ((h.assign value long unsigned).params.map fun p => (p.span, p.rendered.toList))) := by
  have hapart := pairwise_apart hparse hone
  refine ⟨fun p hp => ?_, hapart.imp fun h => ⟨h, h.bytes _⟩, ?_⟩
  · obtain ⟨hle, hstop⟩ := isIn_of_mem_params hparse hp
    exact Span.isIn_of_le hle hstop
  · have hsource : (h.assign value long unsigned).source = source := (parse_eq_ok hparse).2.1
    have hrender := render_eq_flatMap (h := h.assign value long unsigned) (fun p hp => ?_)
      (List.pairwise_map.2 (pairwise_params hparse)) (List.pairwise_map.2 hapart)
    · rwa [hsource] at hrender
    · obtain ⟨q, hq, rfl⟩ := List.mem_map.1 hp
      have hplace := isIn_of_mem_params hparse hq
      rwa [hsource]

/-- A header with two integers. Two styles document the first, one the second. -/
def linkHeader : String :=
  "/** */\n#define TIMEOUT 10UL ///< ms\n#define BAUD 9600 ///< Bd\n"

/-- Its second parameter. -/
def baud : Parameter :=
  { timeoutAt 49 53 with
    name := "BAUD", value := "9600", long := false, unsigned := false, brief := "Bd" }

theorem parse_linkHeader : Header.parse "cfg_link.h" linkHeader
    = .ok ⟨"cfg_link.h", [timeoutAt 23 27, baud], by simp [timeoutAt, baud], linkHeader⟩ := by
  have hdefines : Comment.documentedDefines linkHeader.toList
      = [⟨[], "TIMEOUT", "10UL", ⟨23, 27⟩, 0⟩, ⟨["Bd"], "BAUD", "9600", ⟨49, 53⟩, 36⟩] := by cbv
  have hfirst : firstOfEachName [⟨[], "TIMEOUT", "10UL", ⟨23, 27⟩, 0⟩,
      ⟨["Bd"], "BAUD", "9600", ⟨49, 53⟩, 36⟩]
      = [⟨[], "TIMEOUT", "10UL", ⟨23, 27⟩, 0⟩, ⟨["Bd"], "BAUD", "9600", ⟨49, 53⟩, 36⟩] := by
    simp [firstOfEachName]
  have htimeout : Parameter.ofDefine ⟨[], "TIMEOUT", "10UL", ⟨23, 27⟩, 0⟩ = .ok (timeoutAt 23 27) :=
    Parameter.ofDefine_eq_ok_iff.2 ⟨{}, rfl, by decide⟩
  have hcomment : Header.Comment.ofLines ["Bd"] = .ok { brief := "Bd" } := by cbv
  have hbaud : Parameter.ofDefine ⟨["Bd"], "BAUD", "9600", ⟨49, 53⟩, 36⟩ = .ok baud :=
    Parameter.ofDefine_eq_ok_iff.2 ⟨_, hcomment, by decide⟩
  refine parse_of_readParameters ?_ _ _
  rw [hdefines, hfirst, readParameters, htimeout, readParameters, hbaud, readParameters]

/-- Both values get new ones, and everything around them stays. -/
theorem render_assign_linkHeader :
    let h : Header := ⟨"cfg_link.h", [timeoutAt 23 27, baud], by simp [timeoutAt, baud], linkHeader⟩
    let value := fun name => if name = "TIMEOUT" then "0x20" else "19200"
    Header.parse "cfg_link.h" linkHeader = .ok h ∧ Comment.OneDefineALine linkHeader.toList
      ∧ h.params.Pairwise (fun p q => p.span.Apart q.span)
      ∧ (h.assign value (· = "BAUD") fun _ => false).render
        = "/** */\n#define TIMEOUT 0x20 ///< ms\n#define BAUD 19200L ///< Bd\n" := by
  intro h value
  have hone : Comment.OneDefineALine linkHeader.toList := by decide +kernel
  obtain ⟨-, hapart, hrender⟩ := render_assign parse_linkHeader hone value (· = "BAUD") fun _ => false
  refine ⟨parse_linkHeader, hone, hapart.imp And.left, ?_⟩
  rw [← String.toList_inj, hrender]
  decide +kernel

end Header

end Configurator
