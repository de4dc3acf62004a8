import Configurator.Proofs.Header.Splice
import Configurator.Proofs.Correspondence

/-!
# What a header is read from

The parameters of a parsed header and the defines that they were read from correspond one to one
(`parse_eq_ok`), so that what holds of the places of defines holds of the places of values. A value is
kept without its suffixes; what is written back differs from the text at most in these
(`respells_of_stands`).
-/

namespace Configurator

open Text

/-! ## Suffixes of integers -/

namespace IntegerLiteral

open Header (IsSuffixLetter)

/-- Only suffix letters are taken off, and something remains. -/
theorem takeSuffixes_spec (reversed : List Char) (unsigned long : Bool) :
    ∃ letters, reversed = letters ++ (takeSuffixes reversed unsigned long).1
      ∧ (∀ c ∈ letters, IsSuffixLetter c)
      ∧ ((takeSuffixes reversed unsigned long).1 = [] → reversed = []) := by
  fun_induction takeSuffixes reversed unsigned long with
  | case1 _ c cs unsigned ih =>
      obtain ⟨letters, hsplit, hletters, hempty⟩ := ih
      refine ⟨'L' :: letters, congrArg ('L' :: ·) hsplit, fun d hd => ?_, fun hnil => ?_⟩
      · rcases List.mem_cons.1 hd with rfl | hd
        · exact .inr rfl
        · exact hletters d hd
      · cases hempty hnil
  | case2 _ c cs long ih =>
      obtain ⟨letters, hsplit, hletters, hempty⟩ := ih
      refine ⟨'U' :: letters, congrArg ('U' :: ·) hsplit, fun d hd => ?_, fun hnil => ?_⟩
      · rcases List.mem_cons.1 hd with rfl | hd
        · exact .inl rfl
        · exact hletters d hd
      · cases hempty hnil
  | case3 cs unsigned long => exact ⟨[], rfl, by simp, id⟩

/-- A value is its digits, letters of suffixes and blanks. -/
theorem ofValue_spelling (value : String) :
    ∃ letters blanks, value.toList = (ofValue value).digits.toList ++ (letters ++ blanks)
      ∧ (∀ c ∈ letters, IsSuffixLetter c) ∧ (∀ c ∈ blanks, isBlank c = true)
      ∧ ((ofValue value).digits.toList = [] → value.toList = []) := by
  obtain ⟨letters, hsplit, hletters, hempty⟩ :=
    takeSuffixes_spec (trimEnd value.toList).reverse false false
  obtain ⟨blanks, htrim, hblanks⟩ := dropEndWhile_append_exists isBlank value.toList
  unfold ofValue
  dsimp only
  split
  · next hnumeric =>
    refine ⟨letters.reverse, blanks, ?_, fun c hc => hletters c (List.mem_reverse.1 hc), hblanks,
      fun hnil => ?_⟩
    · rw [String.toList_ofList, ← List.append_assoc, ← List.reverse_append, ← hsplit,
        List.reverse_reverse]
      exact htrim
    · simp only [String.toList_ofList, List.reverse_eq_nil_iff] at hnil
      rw [hnil] at hnumeric
      simp at hnumeric
  · exact ⟨[], [], by simp, by simp, by simp, id⟩

end IntegerLiteral

/-! ## Parameters of defines -/

namespace Parameter

/-- The type that a comment gives a parameter with a value. -/
def typeOf (directives : Header.Directives) (value : String) : ParamType :=
  (directives.kind.bind ParamType.ofDirective?).getD
    (ParamType.infer value directives.valueList.isSome
      (directives.min.isSome || directives.max.isSome))

/-- A value as it is kept in a parameter of a type. -/
def literalOf (type : ParamType) (value : String) : IntegerLiteral :=
  if type = .integer then .ofValue value else ⟨value, false, false⟩

/-- The parameter that a define and what its comment says declare. -/
def ofComment (comment : Header.Comment) (d : Comment.Define) : Parameter :=
  let directives := comment.directives
  let literal := literalOf (typeOf directives d.value) d.value
  { name := d.name
    value := literal.digits
    type := typeOf directives d.value
    min := directives.min
    max := directives.max
    long := directives.long || literal.long
    unsigned := directives.unsigned || literal.unsigned
    valueList := directives.valueList
    conditionalDeps := directives.conditionalDeps
    supports := directives.supports
    brief := comment.brief
    description := comment.description
    extra := directives.extra
    span := d.span }

theorem ofDefine_eq_ok_iff {d : Comment.Define} {p : Parameter} :
    ofDefine d = .ok p
      ↔ ∃ comment, Header.Comment.ofLines d.comment = .ok comment ∧ p = ofComment comment d := by
  unfold ofDefine
  cases hcomment : Header.Comment.ofLines d.comment with
  | error e => simp [bind, Except.bind]
  | ok comment =>
      simp only [bind, Except.bind, pure, Except.pure, Except.ok.injEq, exists_eq_left', ofComment,
        typeOf, literalOf]
      exact eq_comm

theorem span_ofDefine {d : Comment.Define} {p : Parameter} (h : ofDefine d = .ok p) :
    p.span = d.span := by
  obtain ⟨comment, -, rfl⟩ := ofDefine_eq_ok_iff.1 h
  rfl

/-- The suffix that a parameter is written with. -/
def suffix (p : Parameter) : List Char :=
  (if p.unsigned then ['U'] else []) ++ (if p.long then ['L'] else [])

theorem toList_rendered (p : Parameter) :
    p.rendered.toList = p.value.toList ++ (if p.type = .integer then p.suffix else []) := by
  unfold rendered suffix
  cases p.unsigned <;> cases p.long <;> split <;> simp

theorem isSuffixLetter_of_mem_suffix {p : Parameter} {c : Char} (h : c ∈ p.suffix) :
    Header.IsSuffixLetter c := by
  rcases List.mem_append.1 h with h | h
  · split at h
    · exact .inl (List.mem_singleton.1 h)
    · cases h
  · split at h
    · exact .inr (List.mem_singleton.1 h)
    · cases h

/-- What is written for a parameter as it was read is its value in the text with other suffixes. -/
theorem rendered_spelling {d : Comment.Define} {p : Parameter} (h : ofDefine d = .ok p) :
    ∃ digits letters blanks suffix, d.value.toList = digits ++ (letters ++ blanks)
      ∧ p.rendered.toList = digits ++ suffix ∧ (∀ c ∈ letters, Header.IsSuffixLetter c)
      ∧ (∀ c ∈ blanks, isBlank c = true) ∧ (∀ c ∈ suffix, Header.IsSuffixLetter c)
      ∧ (digits = [] → d.value.toList = []) := by
  obtain ⟨comment, -, rfl⟩ := ofDefine_eq_ok_iff.1 h
  rw [toList_rendered]
  by_cases htype : typeOf comment.directives d.value = .integer
  · obtain ⟨letters, blanks, hvalue, hletters, hblanks, hempty⟩ :=
      IntegerLiteral.ofValue_spelling d.value
    refine ⟨_, letters, blanks, (ofComment comment d).suffix, hvalue, ?_, hletters, hblanks,
      fun c hc => isSuffixLetter_of_mem_suffix hc, hempty⟩
    simp [ofComment, literalOf, htype]
  · refine ⟨d.value.toList, [], [], [], by simp, ?_, by simp, by simp, by simp, id⟩
    simp [ofComment, literalOf, htype]

end Parameter

/-! ## Parameters of headers -/

open Comment (Define documentedDefines Stands Style)

namespace Header

theorem firstOfEachName_sublist (ds : List Define) : (firstOfEachName ds).Sublist ds := by
  induction ds with
  | nil => exact List.Sublist.refl _
  | cons d ds ih => exact (List.filter_sublist.trans ih).cons_cons d

/-- Defines that correspond by name do so as far as they are the first of their names. -/
theorem forall₂_firstOfEachName {R : Define → Define → Prop} {ds es : List Define}
    (hname : ∀ d e, R d e → e.name = d.name) (h : List.Forall₂ R ds es) :
    List.Forall₂ R (firstOfEachName ds) (firstOfEachName es) := by
  induction h with
  | nil => exact .nil
  | @cons d e ds es hde _ ih =>
      refine .cons hde (List.rel_filter (fun x y hxy => ?_) ih)
      simp only [hname x y hxy, hname d e hde]

theorem forall₂_readParameters {ds : List Define} {ps : List Parameter}
    (h : readParameters ds = .ok ps) : List.Forall₂ (fun d p => Parameter.ofDefine d = .ok p) ds ps := by
  induction ds generalizing ps with
  | nil =>
      cases h
      exact .nil
  | cons d ds ih =>
      obtain ⟨p, rest, hp, hrest, rfl⟩ := readParameters_cons_eq_ok_iff.1 h
      exact .cons hp (ih hrest)

theorem exists_readParameters {ds : List Define} (h : ∀ d ∈ ds, ∃ p, Parameter.ofDefine d = .ok p) :
    ∃ ps, readParameters ds = .ok ps := by
  induction ds with
  | nil => exact ⟨[], rfl⟩
  | cons d ds ih =>
      obtain ⟨p, hp⟩ := h d List.mem_cons_self
      obtain ⟨ps, hps⟩ := ih fun e he => h e (List.mem_cons_of_mem d he)
      exact ⟨p :: ps, readParameters_cons_eq_ok_iff.2 ⟨p, ps, hp, hps, rfl⟩⟩

/-- A header that is read from a text has the parameters of its first defines of each name. -/
theorem parse_eq_ok {path source : String} {h : Header} (hparse : Header.parse path source = .ok h) :
    h.path = path ∧ h.source = source
      ∧ List.Forall₂ (fun d p => Parameter.ofDefine d = .ok p)
          (firstOfEachName (documentedDefines source.toList)) h.params := by
  unfold Header.parse at hparse
  dsimp only at hparse
  split at hparse
  · cases hparse
  · next params hparams =>
    cases hparse
    exact ⟨rfl, rfl, forall₂_readParameters hparams⟩

/-- A text whose first defines of each name are parameters is a header. -/
theorem parse_of_readParameters {source : String} {params : List Parameter}
    (hparams : readParameters (firstOfEachName (documentedDefines source.toList)) = .ok params)
    (path : String) (hnodup : (params.map (·.name)).Nodup) :
    Header.parse path source = .ok ⟨path, params, hnodup, source⟩ := by
  unfold Header.parse
  dsimp only
  split
  · next e he =>
    rw [hparams] at he
    cases he
  · next params' hparams' =>
    rw [hparams, Except.ok.injEq] at hparams'
    subst hparams'
    rfl

/-- A text is a header if each of its first defines is a parameter. -/
theorem exists_parse {source : String} (path : String)
    (h : ∀ d ∈ firstOfEachName (documentedDefines source.toList),
      ∃ p, Parameter.ofDefine d = .ok p) :
    ∃ copy, Header.parse path source = .ok copy := by
  obtain ⟨params, hparams⟩ := exists_readParameters h
  have hnodup : (params.map (·.name)).Nodup :=
    names_readParameters hparams ▸ nodup_firstOfEachName _
  exact ⟨_, parse_of_readParameters hparams path hnodup⟩

/-- Whether a text is a header has nothing to do with its path. -/
theorem exists_parse_of_parse {path source : String} {h : Header}
    (hparse : Header.parse path source = .ok h) (other : String) :
    ∃ copy, Header.parse other source = .ok copy :=
  exists_parse other fun _ hd => by
    obtain ⟨p, -, hp⟩ := exists_of_forall₂_left (parse_eq_ok hparse).2.2 hd
    exact ⟨p, hp⟩

/-- A text with one define that is documented is a header with one parameter. -/
theorem parse_of_documentedDefines_eq {source : String} {d : Define} {p : Parameter}
    (hdefines : documentedDefines source.toList = [d]) (hp : Parameter.ofDefine d = .ok p)
    (path : String) : Header.parse path source = .ok ⟨path, [p], by simp, source⟩ := by
  have hparams : readParameters (firstOfEachName (documentedDefines source.toList)) = .ok [p] := by
    rw [hdefines, firstOfEachName, firstOfEachName, List.filter_nil, readParameters, hp,
      readParameters]
  exact parse_of_readParameters hparams path _

theorem exists_define {path source : String} {h : Header} (hparse : Header.parse path source = .ok h)
    {p : Parameter} (hp : p ∈ h.params) :
    ∃ d ∈ documentedDefines source.toList, Parameter.ofDefine d = .ok p := by
  obtain ⟨-, -, hparams⟩ := parse_eq_ok hparse
  obtain ⟨d, hd, hpd⟩ := exists_of_forall₂ hparams hp
  exact ⟨d, (firstOfEachName_sublist _).subset hd, hpd⟩

/-- A parameter of a parsed header stands in its text. -/
theorem exists_stands {path source : String} {h : Header} (hparse : Header.parse path source = .ok h)
    {p : Parameter} (hp : p ∈ h.params) :
    ∃ d style head post, Parameter.ofDefine d = .ok p ∧ Stands source.toList d style head post := by
  obtain ⟨d, hd, hpd⟩ := exists_define hparse hp
  obtain ⟨style, head, post, hstands⟩ := Comment.stands_of_mem hd
  exact ⟨d, style, head, post, hpd, hstands⟩

/-- No two parameters have their values at one place. -/
theorem pairwise_params {path source : String} {h : Header}
    (hparse : Header.parse path source = .ok h) :
    h.params.Pairwise fun p q => p.span.start ≠ q.span.start := by
  obtain ⟨-, -, hparams⟩ := parse_eq_ok hparse
  refine pairwise_of_forall₂ hparams
    ((Comment.pairwise_documentedDefines source.toList).sublist (firstOfEachName_sublist _)) ?_
  intro d e p q hp hq hne
  rwa [Parameter.span_ofDefine hp, Parameter.span_ofDefine hq]

/-- The place of a parameter's value is that of its define, and what is written there is the value with
other suffixes. -/
theorem respells_of_stands {text : List Char} {d : Define} {style : Style} {head post : List Char}
    (hd : Stands text d style head post) {p : Parameter} (hp : Parameter.ofDefine d = .ok p) :
    Span.slice text p.span = d.value.toList ∧ Respells text (p.span, p.rendered.toList) := by
  obtain ⟨front, hfront, hhead, -⟩ := Comment.defineHead?_eq_some_iff.1 hd.name
  obtain ⟨ahead, hahead⟩ := hd.suffix
  obtain ⟨before, b, hblank, hb⟩ := hfront.eq_append_blank
  have hlen := hd.length_value
  have hstop := hd.stop
  have htext : text = (ahead ++ front) ++ (d.value.toList ++ post) := by
    rw [← hahead, hhead, List.append_assoc]
  have hstart : d.span.start = (ahead ++ front).length := by
    have := congrArg List.length htext
    simp only [List.length_append] at this ⊢
    omega
  rw [Parameter.span_ofDefine hp]
  obtain ⟨hslice, hdrop⟩ := hd.slice_eq
  refine ⟨hslice, ⟨by dsimp only; omega, by dsimp only; omega, ⟨ahead ++ before, b, ?_, hb⟩,
    ?_, ?_, ?_, ?_⟩⟩
  · dsimp only
    rw [hstart, htext, List.take_left, hblank, List.append_assoc]
  · dsimp only
    rw [hslice]
    exact hd.isTrimmed.tight
  · dsimp only
    rw [hslice]
    exact hd.isTrimmed.last
  · dsimp only
    rw [hslice, hdrop]
    intro c hc
    rcases hd.reads.post_cases with hnil | ⟨c', rest, hcons, hcases⟩
    · rw [firstVisible, hnil] at hc
      cases hc
    · rw [firstVisible, hcons, List.head?_cons, Option.some.injEq] at hc
      subst hc
      rcases hcases with ⟨hstyle, hend⟩ | ⟨hslash, -⟩
      · refine .inl ⟨hend, fun hmem => ?_⟩
        rw [hd.reads.not_isLineEnd hstyle c' hmem] at hend
        cases hend
      · exact .inr hslash
  · dsimp only
    rw [hslice]
    exact Parameter.rendered_spelling hp

end Header

end Configurator
