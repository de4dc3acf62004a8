import Configurator.Proofs.Comment.Lines

/-!
# Where values end

A define that a comment in front of it documents has as its value what its line has up to the first
comment sign, without the blanks in front of that (`plainValue_fst`). The search for the sign knows
nothing of literals. So where all literals of a line are closed, the value is all of the line that is
not comment exactly if no literal has a comment sign in it (`value_documentedDefines`).
-/

namespace Configurator.Comment

open Text

/-! ## Lines and comments -/

/-- What opens a comment that goes on to the end of the line. -/
def slashes : List Char :=
  ['/', '/']

/-- The rest of the line that a text begins with. -/
def restOfLine (cs : List Char) : List Char :=
  cs.takeWhile (!isLineEnd ·)

/-- A line up to its first comment sign. -/
def beforeSlashes (line : List Char) : List Char :=
  ((splitAtFirst? slashes line).map Prod.fst).getD line

def isQuote (c : Char) : Bool :=
  c == '"' || c == '\''

/-- A line up to the first comment sign outside of its string and character literals; nothing if one of
these is not closed. The line begins within a literal if there is an open quote. In a literal a backslash
takes the next character with it. -/
def codeOf? : (opened : Option Char) → (line : List Char) → Option (List Char)
  | none, [] => some []
  | some _, [] => none
  | none, c :: cs =>
    if c = '/' ∧ cs.head? = some '/' then some []
    else (codeOf? (if isQuote c then some c else none) cs).map (c :: ·)
  | some quote, '\\' :: d :: cs => (codeOf? (some quote) cs).map ('\\' :: d :: ·)
  | some quote, c :: cs =>
    (codeOf? (if c = quote then none else some quote) cs).map (c :: ·)

variable {text line code : List Char} {d : Define}

theorem beforeSlashes_cons (c : Char) (cs : List Char) :
    beforeSlashes (c :: cs)
      = if c = '/' ∧ cs.head? = some '/' then [] else c :: beforeSlashes cs := by
  unfold beforeSlashes
  rw [splitAtFirst?]
  split
  · next rest hrest =>
    obtain ⟨rfl, rfl⟩ := List.cons.inj (dropPrefix?_eq_some_iff.1 hrest)
    simp
  · next hnone =>
    rw [if_neg]
    · cases splitAtFirst? slashes cs <;> rfl
    · rintro ⟨rfl, hslash⟩
      obtain ⟨rest, rfl⟩ := List.head?_eq_some_iff.1 hslash
      have hslashes : dropPrefix? slashes ('/' :: '/' :: rest) = some rest :=
        dropPrefix?_eq_some_iff.2 rfl
      cases hnone.symm.trans hslashes

theorem slashes_infix_cons_iff {c : Char} {cs : List Char} :
    slashes <:+: c :: cs ↔ (c = '/' ∧ cs.head? = some '/') ∨ slashes <:+: cs := by
  rw [List.infix_cons_iff, slashes, List.cons_prefix_cons, eq_comm]
  refine or_congr_left (and_congr_right fun _ => ?_)
  cases cs with
  | nil => simp
  | cons d cs => simp [eq_comm]

theorem slashes_infix_of_append {cs rest : List Char} (hrest : '/' ∉ rest)
    (h : slashes <:+: cs ++ rest) : slashes <:+: cs := by
  induction cs with
  | nil => exact absurd (h.subset List.mem_cons_self) hrest
  | cons c cs ih =>
      rw [List.cons_append, slashes_infix_cons_iff] at h
      rw [slashes_infix_cons_iff]
      refine h.imp (And.imp_right fun hhead => ?_) ih
      cases cs with
      | nil => exact absurd (List.mem_of_mem_head? hhead) hrest
      | cons d cs => exact hhead

theorem beforeSlashes_prefix (line : List Char) : beforeSlashes line <+: line := by
  unfold beforeSlashes
  cases hsplit : splitAtFirst? slashes line with
  | none => exact List.prefix_refl line
  | some found =>
      have hline := splitAtFirst?_eq_some hsplit
      exact ⟨slashes ++ found.2, by rw [hline, List.append_assoc]; rfl⟩

theorem not_slashes_infix_beforeSlashes (line : List Char) : ¬ slashes <:+: beforeSlashes line := by
  induction line with
  | nil => decide
  | cons c cs ih =>
      rw [beforeSlashes_cons]
      split
      · decide
      · next hnot =>
        rw [slashes_infix_cons_iff, not_or]
        refine ⟨fun ⟨hc, hhead⟩ => hnot ⟨hc, ?_⟩, ih⟩
        obtain ⟨rest, hrest⟩ := List.head?_eq_some_iff.1 hhead
        obtain ⟨more, hmore⟩ := hrest ▸ beforeSlashes_prefix cs
        rw [← hmore]
        rfl

/-- Whether a part of a line goes up to a comment sign or to the end of the line. -/
def StopsAt (code rest : List Char) : Prop :=
  rest = [] ∨ slashes <+: rest ∧ code.getLast? ≠ some '/'

theorem StopsAt.cons {rest : List Char} {c : Char} (h : StopsAt code rest)
    (hc : code = [] → slashes <+: rest → c ≠ '/') : StopsAt (c :: code) rest := by
  refine h.imp_right fun ⟨hrest, hlast⟩ => ⟨hrest, fun hlast' => ?_⟩
  cases code with
  | nil => exact hc rfl hrest (Option.some.inj hlast')
  | cons d code => exact hlast (List.getLast?_cons_cons ▸ hlast')

/-- What goes up to a comment sign and has no other in it is what stands in front of the first one. -/
theorem beforeSlashes_append {rest : List Char} (hcode : ¬ slashes <:+: code)
    (hrest : StopsAt code rest) : beforeSlashes (code ++ rest) = code := by
  induction code with
  | nil =>
      rcases hrest with rfl | ⟨⟨more, rfl⟩, -⟩
      · rfl
      · rw [List.nil_append, slashes, List.cons_append, beforeSlashes_cons, if_pos ⟨rfl, rfl⟩]
  | cons c code ih =>
      rw [slashes_infix_cons_iff, not_or] at hcode
      rw [List.cons_append, beforeSlashes_cons, if_neg, ih hcode.2]
      · refine hrest.imp_right (And.imp_right fun hlast hlast' => hlast ?_)
        rw [List.getLast?_cons, hlast']
        rfl
      · rintro ⟨rfl, hhead⟩
        cases code with
        | cons d code => exact hcode.1 ⟨rfl, hhead⟩
        | nil =>
            rcases hrest with rfl | ⟨-, hlast⟩
            · cases hhead
            · exact hlast rfl

/-! ## Code in front of comments -/

/-- What is code goes up to a comment sign or to the end of the line, and no literal is open there. -/
theorem exists_of_codeOf? {opened : Option Char} (hopened : ∀ quote ∈ opened, isQuote quote = true)
    (h : codeOf? opened line = some code) :
    (opened ≠ none → code ≠ []) ∧ ∃ rest, line = code ++ rest ∧ StopsAt code rest := by
  fun_induction codeOf? opened line generalizing code with
  | case1 =>
      cases h
      exact ⟨fun hne => absurd rfl hne, [], rfl, .inl rfl⟩
  | case2 => cases h
  | case3 c cs hsign =>
      cases h
      obtain ⟨rfl, hhead⟩ := hsign
      obtain ⟨rest, rfl⟩ := List.head?_eq_some_iff.1 hhead
      exact ⟨fun hne => absurd rfl hne, _, rfl, .inr ⟨List.prefix_append slashes rest, by simp⟩⟩
  | case4 c cs hsign ih =>
      obtain ⟨code, hcode, rfl⟩ := Option.map_eq_some_iff.1 h
      obtain ⟨-, rest, rfl, hstops⟩ := ih (by simp) hcode
      refine ⟨by simp, rest, rfl, hstops.cons fun hnil hrest hc => hsign ⟨hc, ?_⟩⟩
      obtain ⟨more, rfl⟩ := hrest
      rw [hnil]
      rfl
  | case5 quote d cs ih =>
      obtain ⟨code, hcode, rfl⟩ := Option.map_eq_some_iff.1 h
      obtain ⟨hne, rest, rfl, hstops⟩ := ih hopened hcode
      have hcode' := hne (by simp)
      refine ⟨by simp, rest, rfl, ?_⟩
      exact (hstops.cons fun hnil => absurd hnil hcode').cons fun hnil => absurd hnil (by simp)
  | case6 quote c cs _ ih =>
      obtain ⟨code, hcode, rfl⟩ := Option.map_eq_some_iff.1 h
      have hquote := hopened quote rfl
      by_cases hclosed : c = quote
      · rw [if_pos hclosed] at hcode ih
        obtain ⟨-, rest, rfl, hstops⟩ := ih (by simp) hcode
        refine ⟨by simp, rest, rfl, hstops.cons fun _ _ hc => ?_⟩
        rw [← hclosed, hc] at hquote
        exact absurd hquote (by decide)
      · rw [if_neg hclosed] at hcode ih
        obtain ⟨hne, rest, rfl, hstops⟩ := ih hopened hcode
        exact ⟨by simp, rest, rfl, hstops.cons fun hnil => absurd hnil (hne (by simp))⟩

/-- The first comment sign of a line is outside of its literals exactly if there is none in its code. -/
theorem beforeSlashes_eq_iff (h : codeOf? none line = some code) :
    beforeSlashes line = code ↔ ¬ slashes <:+: code := by
  constructor
  · rintro rfl
    exact not_slashes_infix_beforeSlashes line
  · intro hcode
    obtain ⟨-, rest, rfl, hstops⟩ := exists_of_codeOf? (by simp) h
    exact beforeSlashes_append hcode hstops

/-- Blanks at the end do not matter for that. -/
theorem trimmed_beforeSlashes_eq_iff (h : codeOf? none line = some code) :
    dropEndWhile isInlineBlank (beforeSlashes line) = dropEndWhile isInlineBlank code
      ↔ ¬ slashes <:+: code := by
  refine ⟨fun heq hinside => ?_, fun hcode => by rw [(beforeSlashes_eq_iff h).2 hcode]⟩
  obtain ⟨blanks, hsplit, hblank⟩ := dropEndWhile_append_exists isInlineBlank code
  obtain ⟨blanks', hsplit', -⟩ := dropEndWhile_append_exists isInlineBlank (beforeSlashes line)
  have hvisible : slashes <:+: dropEndWhile isInlineBlank code := by
    refine slashes_infix_of_append (fun hmem => ?_) (hsplit ▸ hinside)
    exact absurd (hblank '/' hmem) (by decide)
  have hshort : dropEndWhile isInlineBlank code <+: beforeSlashes line :=
    ⟨blanks', by rw [← heq]; exact hsplit'.symm⟩
  exact not_slashes_infix_beforeSlashes line (hvisible.trans hshort.isInfix)

/-! ## Values -/

theorem dropEndWhile_cons {p : Char → Bool} {c : Char} {cs : List Char}
    (h : ¬ ∀ b ∈ c :: cs, p b = true) : dropEndWhile p (c :: cs) = c :: dropEndWhile p cs := by
  unfold dropEndWhile
  rw [List.reverse_cons, List.dropWhile_append]
  split
  · next hall =>
    rw [List.isEmpty_iff, List.dropWhile_eq_nil_iff] at hall
    have hc : ¬ p c = true := fun hc => h fun b hb => by
      rcases List.mem_cons.1 hb with rfl | hb
      · exact hc
      · exact hall b (List.mem_reverse.2 hb)
    rw [List.dropWhile_eq_nil_iff.2 hall, List.dropWhile_cons_of_neg hc]
    rfl
  · rw [List.reverse_append]
    rfl

theorem dropEndWhile_of_all {p : Char → Bool} {cs : List Char} (h : ∀ c ∈ cs, p c = true) :
    dropEndWhile p cs = [] := by
  rw [dropEndWhile, List.dropWhile_eq_nil_iff.2 fun c hc => h c (List.mem_reverse.1 hc)]
  rfl

theorem restOfLine_cons {c : Char} (hc : isLineEnd c = false) (cs : List Char) :
    restOfLine (c :: cs) = c :: restOfLine cs :=
  List.takeWhile_cons_of_pos (by simp [hc])

/-- A comment sign does not reach over the end of a line. -/
theorem beforeSlashes_restOfLine_cons {c : Char} (hc : isLineEnd c = false) (cs : List Char) :
    beforeSlashes (restOfLine (c :: cs))
      = if c = '/' ∧ cs.head? = some '/' then [] else c :: beforeSlashes (restOfLine cs) := by
  have hhead : (restOfLine cs).head? = some '/' ↔ cs.head? = some '/' := by
    cases cs with
    | nil => rfl
    | cons d cs =>
        cases hd : isLineEnd d with
        | true =>
            have hne : d ≠ '/' := by
              rintro rfl
              cases hd
            simp [restOfLine, hd, hne]
        | false => rw [restOfLine_cons hd]; rfl
  rw [restOfLine_cons hc, beforeSlashes_cons]
  simp only [hhead]

/-- Nothing of a value stands behind a place exactly if there are only blanks up to a comment or the end
of the line. -/
theorem endsValue_iff (cs : List Char) :
    endsValue (cs.dropWhile isInlineBlank) = true
      ↔ ∀ c ∈ beforeSlashes (restOfLine cs), isInlineBlank c = true := by
  induction cs with
  | nil => simp [endsValue, restOfLine, beforeSlashes, splitAtFirst?, slashes]
  | cons c cs ih =>
      cases hblank : isInlineBlank c with
      | true =>
          have hne : c ≠ '/' := by
            rintro rfl
            cases hblank
          rw [List.dropWhile_cons_of_pos hblank, ih,
            beforeSlashes_restOfLine_cons (not_isLineEnd_of_isInlineBlank hblank),
            if_neg fun h => hne h.1]
          simp [hblank]
      | false =>
          rw [List.dropWhile_cons_of_neg (by simp [hblank]), endsValue_cons]
          cases hline : isLineEnd c with
          | true => simp [restOfLine, hline, beforeSlashes, splitAtFirst?, slashes]
          | false =>
              rw [beforeSlashes_restOfLine_cons hline]
              split <;> simp_all

/-- A value is what its line has in front of the first comment sign, without the blanks at its end. -/
theorem plainValue_fst (cs : List Char) :
    (plainValue cs).1 = dropEndWhile isInlineBlank (beforeSlashes (restOfLine cs)) := by
  fun_induction plainValue cs with
  | case1 => rfl
  | case2 c cs hends => exact (dropEndWhile_of_all ((endsValue_iff _).1 hends)).symm
  | case3 c cs hends value rest heq ih =>
      rw [endsValue_iff] at hends
      have hline : isLineEnd c = false := by
        by_contra hline
        exact hends (by simp [restOfLine, hline, beforeSlashes, splitAtFirst?, slashes])
      rw [beforeSlashes_restOfLine_cons hline] at hends ⊢
      split at hends
      · exact absurd (by simp) hends
      · next hsign =>
        rw [if_neg hsign, dropEndWhile_cons hends, ← ih, heq]

/-! ## Which style counts -/

/-- Of defines in the order of their values those stay that are the first with their value. -/
theorem head?_filter_of_mem_dropRepeated {ds : List Define}
    (hsorted : ds.Pairwise fun d e => d.span.start ≤ e.span.start) (h : d ∈ dropRepeated ds) :
    (ds.filter (·.span.start = d.span.start)).head? = some d := by
  fun_induction dropRepeated ds with
  | case1 e e' ds heq ih =>
      obtain ⟨hfirst, hrest⟩ := List.pairwise_cons.1 hsorted
      have hsorted' : (e :: ds).Pairwise fun d e => d.span.start ≤ e.span.start :=
        List.pairwise_cons.2
          ⟨fun x hx => hfirst x (List.mem_cons_of_mem e' hx), (List.pairwise_cons.1 hrest).2⟩
      have hd := ih hsorted' h
      by_cases hsame : e.span.start = d.span.start
      · simpa [List.filter_cons, hsame] using hd
      · simpa [List.filter_cons, hsame, ← heq] using hd
  | case2 e e' ds hne ih =>
      obtain ⟨hfirst, hrest⟩ := List.pairwise_cons.1 hsorted
      rcases List.mem_cons.1 h with rfl | h
      · simp
      · have hle := hfirst e' List.mem_cons_self
        have hle' : e'.span.start ≤ d.span.start := by
          rcases List.mem_cons.1 ((dropRepeated_sublist _).subset h) with rfl | hmem
          · exact Nat.le_refl _
          · exact (List.pairwise_cons.1 hrest).1 d hmem
        rw [List.filter_cons_of_neg (by simp only [decide_eq_true_eq]; omega)]
        exact ih hrest h
  | case3 ds hshort =>
      rcases ds with _ | ⟨e, _ | ⟨e', ds⟩⟩
      · cases h
      · obtain rfl := List.mem_singleton.1 h
        simp
      · exact absurd rfl (hshort e e' ds)

/-- The defines that a style finds. -/
def Style.defines (style : Style) (text : List Char) : List Define :=
  (style.sites true text).map fun (here, s) => Define.ofSite text.length here s

/-- Whether a comment in front of a define documents it: a block, or a line of three slashes. -/
def DocumentedInFront (text : List Char) (d : Define) : Prop :=
  ∃ e ∈ Style.block.defines text ++ Style.line.defines text, e.span.start = d.span.start

/-- A define that is documented in front is the one that was found there, and not one with a comment
behind it. -/
theorem exists_style_of_documentedInFront (hd : d ∈ documentedDefines text)
    (hfront : DocumentedInFront text d) :
    ∃ style : Style, style ≠ .trailing ∧ d ∈ style.defines text := by
  have hdropped := List.mem_mergeSort.1 hd
  have hfirst := head?_filter_of_mem_dropRepeated
    (pairwise_mergeSort_le (fun d : Define => d.span.start) _) hdropped
  rw [filter_mergeSort_le fun d : Define => d.span.start] at hfirst
  have hfound : ([Style.block, .line, .trailing].flatMap fun style =>
      (style.sites true text).map fun x => Define.ofSite text.length x.1 x.2)
      = Style.block.defines text ++ Style.line.defines text ++ Style.trailing.defines text := by
    simp [Style.defines]
  obtain ⟨e, he, hstart⟩ := hfront
  have hne : (Style.block.defines text ++ Style.line.defines text).filter
      (·.span.start = d.span.start) ≠ [] :=
    List.ne_nil_of_mem (List.mem_filter.2 ⟨he, decide_eq_true hstart⟩)
  rw [hfound, List.filter_append, List.head?_append_of_ne_nil _ hne] at hfirst
  have hmem := (List.mem_filter.1 (List.mem_of_mem_head? hfirst)).1
  rcases List.mem_append.1 hmem with hmem | hmem
  · exact ⟨.block, by decide, hmem⟩
  · exact ⟨.line, by decide, hmem⟩

/-! ## Values of documented defines -/

theorem Stands.drop_start {style : Style} {head post : List Char} (h : Stands text d style head post) :
    text.drop d.span.start = d.value.toList ++ post := by
  obtain ⟨before, hbefore⟩ := h.value_suffix
  have hlen := congrArg List.length hbefore
  have hstart : d.span.start = before.length := by
    rw [h.start]
    simp only [List.length_append] at hlen ⊢
    omega
  rw [hstart, ← hbefore, List.drop_left]

/-- Where a define without a comment behind its value stands, its value is read from the line. -/
theorem Stands.value_eq {style : Style} {head post : List Char} (h : Stands text d style head post)
    (hstyle : style ≠ .trailing) :
    d.value.toList
      = dropEndWhile isInlineBlank (beforeSlashes (restOfLine (text.drop d.span.start))) := by
  have hreads : Style.block.Reads d.value.toList post := by
    have hends := h.reads.ends
    have hruns := h.reads.runs
    cases style with
    | block => exact ⟨hends, hruns⟩
    | line => exact ⟨hends, hruns⟩
    | trailing => exact absurd rfl hstyle
  rw [h.drop_start, ← plainValue_fst, plainValue_of_reads hreads]

/-- The value of a define that is documented in front begins behind the name and the blanks that follow
it, and is what its line has from there up to the first comment sign, without the blanks at the end. It
is all that is not comment exactly if no comment sign stands in the literals in front of the comment. -/
theorem value_documentedDefines (hd : d ∈ documentedDefines text)
    (hfront : DocumentedInFront text d) :
    (∃ before head, text = before ++ head ++ text.drop d.span.start ∧ IsHead head d.name.toList
        ∧ IsTight (text.drop d.span.start))
      ∧ Span.slice text d.span = d.value.toList
      ∧ d.span.stop = d.span.start + d.value.toList.length
      ∧ d.value.toList
        = dropEndWhile isInlineBlank (beforeSlashes (restOfLine (text.drop d.span.start)))
      ∧ ∀ code, codeOf? none (restOfLine (text.drop d.span.start)) = some code →
        (d.value.toList = dropEndWhile isInlineBlank code ↔ ¬ slashes <:+: code) := by
  obtain ⟨style, hstyle, hfound⟩ := exists_style_of_documentedInFront hd hfront
  obtain ⟨⟨here, s⟩, hsite, heq⟩ := List.mem_map.1 hfound
  obtain ⟨head, post, hstands⟩ := stands_of_mem_sites hsite
  dsimp only at heq
  rw [heq] at hstands
  have hvalue := hstands.value_eq hstyle
  refine ⟨?_, hstands.slice_eq.1, hstands.stop, hvalue, fun code hcode => ?_⟩
  · obtain ⟨front, hhead, hsplit, htight⟩ := defineHead?_eq_some_iff.1 hstands.name
    obtain ⟨before, hbefore⟩ := hstands.suffix
    rw [hstands.drop_start]
    refine ⟨before, front, ?_, hhead, htight⟩
    rw [List.append_assoc, ← hsplit, hbefore]
  · rw [hvalue]
    exact trimmed_beforeSlashes_eq_iff hcode

/-- A define whose literal has a quote and a slash in it, in front of a comment with a quote of its own. -/
def pageText : List Char :=
  "/** Page. */\n#define PAGE \"a/\\\"b\" // it's shown\n".toList

def pageDefine : Define where
  comment := ["Page."]
  name := "PAGE"
  value := "\"a/\\\"b\""
  span := ⟨26, 33⟩
  start := 0

theorem value_documentedDefines_pageText :
    pageDefine ∈ documentedDefines pageText ∧ DocumentedInFront pageText pageDefine
      ∧ codeOf? none (restOfLine (pageText.drop 26)) = some "\"a/\\\"b\" ".toList
      ∧ pageDefine.value.toList = dropEndWhile isInlineBlank "\"a/\\\"b\" ".toList := by
  have hd : pageDefine ∈ documentedDefines pageText := by decide +kernel
  have hfront : DocumentedInFront pageText pageDefine :=
    ⟨pageDefine, by decide +kernel, rfl⟩
  have hcode : codeOf? none (restOfLine (pageText.drop 26)) = some "\"a/\\\"b\" ".toList := by
    decide +kernel
  refine ⟨hd, hfront, hcode, ((value_documentedDefines hd hfront).2.2.2.2 _ hcode).2 ?_⟩
  rw [← beforeSlashes_eq_iff hcode]
  decide +kernel

/-- A define whose literal has a comment sign in it. -/
def addressText : List Char :=
  "/** Home page. */\n#define URL \"http://localhost\"\n".toList

def addressDefine : Define where
  comment := ["Home page."]
  name := "URL"
  value := "\"http:"
  span := ⟨30, 36⟩
  start := 0

/-- A value ends in the middle of a literal that has a comment sign in it. -/
theorem not_forall_value_eq_code :
    ¬ ∀ (text : List Char) (d : Define), d ∈ documentedDefines text → DocumentedInFront text d →
      ∀ code, codeOf? none (restOfLine (text.drop d.span.start)) = some code →
        d.value.toList = dropEndWhile isInlineBlank code := by
  intro h
  have hd : addressDefine ∈ documentedDefines addressText := by decide +kernel
  have hfront : DocumentedInFront addressText addressDefine := ⟨addressDefine, by decide +kernel, rfl⟩
  have hcode : codeOf? none (restOfLine (addressText.drop 30)) = some "\"http://localhost\"".toList := by
    decide +kernel
  exact absurd (h addressText addressDefine hd hfront _ hcode) (by decide +kernel)

end Configurator.Comment
