import Configurator.Proofs.Catalog.Declared
import Configurator.Proofs.Header.Parsing
import Configurator.Proofs.Text.Cuts

/-!
# How values are spelled

What a parameter holds after it took values, and what is read when it is written. Values are kept
without blanks around them, and integers without suffixes, which only ever get more
(`Parameter.Settled`). The suffixes come off again when the value is read, as long as a number stands
in front of them (`ofValue_written`), and taking them off is a normal form. If no directive says what the type is, the new value decides
that anew, so it has to have the shape of the old one as far as suffixes matter
(`Parameter.Spelled`); then what is read is what was written (`takeValue_ofComment`).
-/

namespace Configurator

open Text
open Comment (IsTrimmed)

/-! ## Trimmed texts -/

/-- A trimmed text stays so with more behind it that has no blanks. -/
theorem Comment.IsTrimmed.append {value more : List Char} (h : IsTrimmed value)
    (hmore : ∀ c ∈ more, isInlineBlank c = false) : IsTrimmed (value ++ more) := by
  refine ⟨?_, fun before b hlast => ?_⟩
  · cases value with
    | nil =>
        cases more with
        | nil => rfl
        | cons c more => exact Comment.isTight_cons.2 (hmore c List.mem_cons_self)
    | cons c value => exact Comment.isTight_cons.2 (Comment.isTight_cons.1 h.tight)
  · cases hsplit : more.getLast? with
    | none =>
        rw [List.getLast?_eq_none_iff.1 hsplit, List.append_nil] at hlast
        exact h.last before b hlast
    | some c =>
        have hsame := congrArg List.getLast? hlast
        rw [List.getLast?_append, hsplit, List.getLast?_concat] at hsame
        obtain rfl : c = b := by simpa using hsame
        exact hmore c (List.mem_of_getLast? hsplit)

namespace Text

theorem isTrimmed_trim (cs : List Char) : IsTrimmed (trim cs) := by
  refine ⟨?_, fun before b hlast => not_isInlineBlank_of_not_isBlank (not_isBlank_of_trim.2 hlast)⟩
  cases htrim : trim cs with
  | nil => rfl
  | cons c rest =>
      exact Comment.isTight_cons.2 (not_isInlineBlank_of_not_isBlank (not_isBlank_of_trim.1 htrim))

end Text

/-! ## Suffixes -/

namespace IntegerLiteral

/-- Whether a text ends in a digit and starts like a number. -/
def isNumeric (cs : List Char) : Bool :=
  cs.getLast?.any isHexDigit && looksNumeric cs

theorem not_isBlank_of_isHexDigit {c : Char} (h : isHexDigit c = true) : isBlank c = false := by
  have hvalue : (Text.Integer.digitValue c).isSome = true := by
    unfold isHexDigit Text.Integer.digitIn? at h
    cases hc : Text.Integer.digitValue c with
    | none => simp [hc] at h
    | some n => rfl
  have hrange : (48 ≤ c.toNat ∧ c.toNat ≤ 57) ∨ (97 ≤ c.toNat ∧ c.toNat ≤ 122)
      ∨ (65 ≤ c.toNat ∧ c.toNat ≤ 90) := by
    unfold Text.Integer.digitValue at hvalue
    split at hvalue
    · next hc => exact .inl hc
    · split at hvalue
      · next hc => exact .inr (.inl hc)
      · split at hvalue
        · next hc => exact .inr (.inr hc)
        · cases hvalue
  simp only [isBlank, Bool.or_eq_false_iff, Bool.and_eq_false_iff, decide_eq_false_iff_not,
    beq_eq_false_iff_ne]
  omega

theorem not_isSuffixLetter_of_isHexDigit {c : Char} (h : isHexDigit c = true) :
    c ≠ 'L' ∧ c ≠ 'U' := by
  constructor
  · rintro rfl
    exact absurd h (by decide)
  · rintro rfl
    exact absurd h (by decide)

theorem takeSuffixes_of_isHexDigit {c : Char} (h : isHexDigit c = true) (cs : List Char)
    (unsigned long : Bool) : takeSuffixes (c :: cs) unsigned long = (c :: cs, unsigned, long) := by
  obtain ⟨hl, hu⟩ := not_isSuffixLetter_of_isHexDigit h
  unfold takeSuffixes
  split
  · next heq => exact absurd (List.cons.inj heq).1 hl
  · next heq => exact absurd (List.cons.inj heq).1 hu
  · rfl

/-- A number ends in a digit, which is no letter of a suffix. -/
theorem exists_last_of_isNumeric {cs : List Char} (h : isNumeric cs = true) :
    ∃ c, cs.getLast? = some c ∧ isHexDigit c = true ∧ ¬ Header.IsSuffixLetter c := by
  rw [isNumeric, Bool.and_eq_true, Option.any_eq_true] at h
  obtain ⟨⟨c, hc, hhex⟩, -⟩ := h
  obtain ⟨hl, hu⟩ := not_isSuffixLetter_of_isHexDigit hhex
  exact ⟨c, hc, hhex, fun hletter => hletter.elim hu hl⟩

/-- The digits with the suffixes behind them, as an integer is written. -/
def written (literal : IntegerLiteral) : String :=
  literal.digits ++ (if literal.unsigned then "U" else "") ++ (if literal.long then "L" else "")

theorem toList_written (literal : IntegerLiteral) :
    literal.written.toList = literal.digits.toList
      ++ ((if literal.unsigned then ['U'] else []) ++ (if literal.long then ['L'] else [])) := by
  unfold written
  cases literal.unsigned <;> cases literal.long <;> simp

theorem written_bare (digits : String) : written ⟨digits, false, false⟩ = digits := by
  simp [written]

/-- The suffixes behind a number come off. -/
theorem ofValue_written {literal : IntegerLiteral} (h : isNumeric literal.digits.toList = true) :
    ofValue literal.written = literal := by
  obtain ⟨c, hc, hhex, -⟩ := exists_last_of_isNumeric h
  obtain ⟨before, hdigits⟩ := List.getLast?_eq_some_iff.1 hc
  have hwritten := toList_written literal
  rw [hdigits] at hwritten
  have htrim : trimEnd literal.written.toList = literal.written.toList := by
    rw [hwritten]
    cases literal.unsigned <;> cases literal.long
    · simpa using trimEnd_append_singleton (not_isBlank_of_isHexDigit hhex)
    · exact trimEnd_append_singleton rfl
    · exact trimEnd_append_singleton rfl
    · have hboth : trimEnd (before ++ [c] ++ ['U'] ++ ['L']) = before ++ [c] ++ ['U'] ++ ['L'] :=
        trimEnd_append_singleton rfl
      simpa using hboth
  have htake : takeSuffixes literal.written.toList.reverse false false
      = (c :: before.reverse, literal.unsigned, literal.long) := by
    rw [hwritten]
    cases literal.unsigned <;> cases literal.long <;>
      simp [takeSuffixes, takeSuffixes_of_isHexDigit hhex]
  have hreverse : (c :: before.reverse).reverse = literal.digits.toList := by simp [hdigits]
  have hlooks : looksNumeric literal.digits.toList = true := (Bool.and_eq_true_iff.1 h).2
  unfold ofValue
  rw [htrim, htake]
  dsimp only
  rw [hreverse, hlooks, List.head?_cons, Option.any_some, hhex]
  simp

/-- What is left of a value is a number, or the value as it is. -/
theorem ofValue_cases (value : String) :
    isNumeric (ofValue value).digits.toList = true ∨ ofValue value = ⟨value, false, false⟩ := by
  unfold ofValue
  dsimp only
  split
  · next h =>
    rw [Bool.and_eq_true] at h
    refine .inl ?_
    rw [String.toList_ofList, isNumeric, List.getLast?_reverse, h.1, h.2]
    rfl
  · exact .inr rfl

/-- Nothing more comes off once the suffixes are off. -/
theorem ofValue_digits (value : String) :
    ofValue (ofValue value).digits = ⟨(ofValue value).digits, false, false⟩ := by
  rcases ofValue_cases value with hnumeric | hsame
  · have hbare : ofValue (written ⟨(ofValue value).digits, false, false⟩)
        = ⟨(ofValue value).digits, false, false⟩ := ofValue_written hnumeric
    rwa [written_bare] at hbare
  · rw [hsame]
    exact hsame

/-- Taking the suffixes off a text gives a normal form: written with the suffixes behind the digits it
is read as itself, and the digits are read without a suffix. Where a suffix came off, they end in a digit
and not in another letter of a suffix. -/
theorem ofValue_written_ofValue (text : String) :
    ofValue (ofValue text).written = ofValue text
      ∧ ofValue (ofValue text).digits = ⟨(ofValue text).digits, false, false⟩
      ∧ ((ofValue text).unsigned = true ∨ (ofValue text).long = true →
          ∃ c, (ofValue text).digits.toList.getLast? = some c ∧ isHexDigit c = true
            ∧ ¬ Header.IsSuffixLetter c) := by
  refine ⟨?_, ofValue_digits text, fun hsuffix => ?_⟩
  · rcases ofValue_cases text with hnumeric | hsame
    · exact ofValue_written hnumeric
    · have hwritten : (ofValue text).written = text := by rw [hsame, written_bare]
      rw [hwritten]
  · rcases ofValue_cases text with hnumeric | hsame
    · exact exists_last_of_isNumeric hnumeric
    · rw [hsame] at hsuffix
      simp at hsuffix

/-- Suffixes of any number and order, with blanks behind them. -/
theorem ofValue_written_ofValue_mask :
    ofValue "(0x1FLULU \t" = ⟨"(0x1F", true, true⟩
      ∧ ofValue "(0x1FUL" = ⟨"(0x1F", true, true⟩
      ∧ ∃ c, "(0x1F".toList.getLast? = some c ∧ isHexDigit c = true ∧ ¬ Header.IsSuffixLetter c := by
  have hread : ofValue "(0x1FLULU \t" = ⟨"(0x1F", true, true⟩ := by decide
  obtain ⟨hwritten, -, hlast⟩ := ofValue_written_ofValue "(0x1FLULU \t"
  rw [hread] at hwritten hlast
  exact ⟨hread, hwritten, hlast (.inl rfl)⟩

theorem isTrimmed_ofValue {value : String} (h : IsTrimmed value.toList) :
    IsTrimmed (ofValue value).digits.toList := by
  rcases ofValue_cases value with hnumeric | hsame
  · obtain ⟨letters, blanks, hsplit, -, -, -⟩ := ofValue_spelling value
    rw [isNumeric, Bool.and_eq_true] at hnumeric
    refine ⟨?_, fun before b hlast => ?_⟩
    · cases hdigits : (ofValue value).digits.toList with
      | nil => rfl
      | cons c cs =>
          rw [hdigits, List.cons_append] at hsplit
          have htight := h.tight
          rw [hsplit] at htight
          exact Comment.isTight_cons.2 (Comment.isTight_cons.1 htight)
    · rw [hlast, List.getLast?_concat] at hnumeric
      exact not_isInlineBlank_of_not_isBlank
        (not_isBlank_of_isHexDigit (by simpa using hnumeric.1))
  · rwa [hsame]

end IntegerLiteral

/-! ## Types that values decide -/

namespace Parameter

/-- Whether a comment leaves the type of a parameter to its value. -/
def leavesType (directives : Header.Directives) : Bool :=
  (directives.kind.bind ParamType.ofDirective?).isNone && directives.valueList.isNone
    && !(directives.min.isSome || directives.max.isSome)

variable {directives : Header.Directives} {p q : Parameter} {value : String}

theorem typeOf_of_leavesType (h : leavesType directives = true) (value : String) :
    typeOf directives value
      = if ParamType.isIntegerLiteral (trim value.toList) then .integer else .text := by
  simp only [leavesType, Bool.and_eq_true, Option.isNone_iff_eq_none, Bool.not_eq_true'] at h
  obtain ⟨⟨hkind, hlist⟩, hbounds⟩ := h
  rw [typeOf, hkind, hlist, hbounds]
  rfl

/-- A comment that does not leave the type to the value gives every value the same type. -/
theorem typeOf_eq (h : leavesType directives = false) (value value' : String) :
    typeOf directives value = typeOf directives value' := by
  unfold typeOf
  cases hkind : directives.kind.bind ParamType.ofDirective? with
  | some type => rfl
  | none =>
      rw [Option.getD_none, Option.getD_none]
      unfold ParamType.infer
      cases hlist : directives.valueList with
      | some name => rfl
      | none =>
          have hbounds : (directives.min.isSome || directives.max.isSome) = true := by
            rw [leavesType, hkind, hlist] at h
            simpa only [Option.isNone_none, Bool.true_and, Bool.not_eq_false'] using h
          rw [hbounds]
          rfl

/-! ## Parameters that took values -/

/-- What holds between a parameter as it was read and what it is after it took values. -/
structure Settled (p q : Parameter) : Prop where
  declared : q.declared = p.declared
  trimmed : IsTrimmed q.value.toList
  stripped : q.type = .integer → IntegerLiteral.ofValue q.value = ⟨q.value, false, false⟩
  unsigned : p.unsigned = true → q.unsigned = true
  long : p.long = true → q.long = true
  flags : q.type ≠ .integer → q.unsigned = p.unsigned ∧ q.long = p.long

theorem Settled.type_eq (h : Settled p q) : q.type = p.type :=
  congrArg (·.type) h.declared

theorem settled_ofComment {d : Comment.Define} (comment : Header.Comment)
    (hd : IsTrimmed d.value.toList) : Settled (ofComment comment d) (ofComment comment d) := by
  refine ⟨rfl, ?_, fun htype => ?_, id, id, fun _ => ⟨rfl, rfl⟩⟩
  · by_cases htype : typeOf comment.directives d.value = .integer
    · simpa [ofComment, literalOf, htype] using IntegerLiteral.isTrimmed_ofValue hd
    · simpa [ofComment, literalOf, htype] using hd
  · have hint : typeOf comment.directives d.value = .integer := htype
    simpa [ofComment, literalOf, hint] using IntegerLiteral.ofValue_digits d.value

theorem Settled.acceptInteger (h : Settled p q) (htype : q.type = .integer) {text : String}
    {r : Parameter} (hr : q.acceptInteger text = .ok r) (hdecl : r.declared = p.declared) :
    Settled p r := by
  obtain ⟨literal, n, hliteral, -, -, rfl⟩ := acceptInteger_eq_ok hr
  have htext : IsTrimmed (String.ofList (trim text.toList)).toList := by
    rw [String.toList_ofList]
    exact isTrimmed_trim _
  have hdigits : IsTrimmed literal.digits.toList := by
    rw [hliteral]
    exact IntegerLiteral.isTrimmed_ofValue htext
  have hstripped : IntegerLiteral.ofValue literal.digits = ⟨literal.digits, false, false⟩ := by
    rw [hliteral]
    exact IntegerLiteral.ofValue_digits _
  exact ⟨hdecl, hdigits, fun _ => hstripped, fun hu => Bool.or_eq_true_iff.2 (.inl (h.unsigned hu)),
    fun hl => Bool.or_eq_true_iff.2 (.inl (h.long hl)), fun hne => absurd htype hne⟩

theorem Settled.withText (h : Settled p q) (htype : q.type ≠ .integer) {value : String}
    (hvalue : IsTrimmed value.toList) : Settled p { q with value } :=
  ⟨h.declared, hvalue, fun hint => absurd hint htype, h.unsigned, h.long, h.flags⟩

/-- Taking a value keeps a parameter settled. -/
theorem Settled.accept (h : Settled p q) {choices : Option ValueList} {text : String}
    {r : Parameter} (hr : q.accept choices text = .ok r) : Settled p r := by
  rcases accept_eq_ok hr with ⟨htype, value, hform, rfl⟩ | ⟨htype, hint⟩ | ⟨htype, rfl⟩
  · refine h.withText (by rw [htype]; decide) ?_
    rcases booleanForm?_eq hform with rfl | rfl
    · exact isTrimmed_trim ['0']
    · exact isTrimmed_trim ['1']
  · exact h.acceptInteger htype hint ((declared_accept hr).trans h.declared)
  · refine h.withText (fun hint => ?_) ?_
    · rw [hint] at htype
      simp at htype
    · rw [String.toList_ofList]
      exact isTrimmed_trim _

/-- What is written for a parameter that took values has no blanks around it. -/
theorem Settled.isTrimmed_rendered (h : Settled p q) : IsTrimmed q.rendered.toList := by
  rw [toList_rendered]
  refine h.trimmed.append ?_
  intro c hc
  split at hc
  · exact not_isInlineBlank_of_not_isBlank (isSuffixLetter_of_mem_suffix hc).not_isBlank
  · cases hc

/-! ## Reading what is written -/

/-- Whether a value is written so that it is read again, as far as its spelling goes. A suffix comes
off only behind a number. A type that the value decides stays an integer only if the digits are decimal
and have no sign, and a text must not get the shape of an integer with suffixes. -/
structure Spelled (directives : Header.Directives) (q : Parameter) : Prop where
  suffixed : q.type = .integer → q.suffix ≠ [] → IntegerLiteral.isNumeric q.value.toList = true
  shape : q.type = .integer → q.suffix ≠ [] → leavesType directives = true →
    ParamType.isIntegerLiteral (trim q.rendered.toList) = true
  text : q.type = .text → leavesType directives = true →
    ParamType.isIntegerLiteral (trim q.value.toList) = true →
      (IntegerLiteral.ofValue q.value).digits = q.value

theorem suffix_eq_nil_iff : q.suffix = [] ↔ q.unsigned = false ∧ q.long = false := by
  unfold suffix
  cases q.unsigned <;> cases q.long <;> simp

theorem rendered_eq_value (h : q.type = .integer → q.suffix = []) : q.rendered = q.value := by
  refine String.toList_inj.1 ?_
  rw [toList_rendered]
  split
  · next hint => rw [h hint, List.append_nil]
  · rw [List.append_nil]

theorem rendered_eq_written (h : q.type = .integer) :
    q.rendered = IntegerLiteral.written ⟨q.value, q.unsigned, q.long⟩ :=
  if_pos h

/-- The suffixes of a settled integer come off again. -/
theorem Settled.ofValue_rendered (h : Settled p q) (hspelled : Spelled directives q)
    (htype : q.type = .integer) :
    IntegerLiteral.ofValue q.rendered = ⟨q.value, q.unsigned, q.long⟩ := by
  by_cases hsuffix : q.suffix = []
  · obtain ⟨hunsigned, hlong⟩ := suffix_eq_nil_iff.1 hsuffix
    rw [rendered_eq_value fun _ => hsuffix, h.stripped htype, hunsigned, hlong]
  · rw [rendered_eq_written htype]
    exact IntegerLiteral.ofValue_written (hspelled.suffixed htype hsuffix)

/-- What is read for a settled integer is its digits and suffixes, be it as an integer or, without
suffixes, as a text. -/
theorem Settled.literalOf_integer (h : Settled p q) (hspelled : Spelled directives q)
    (hp : p.type = typeOf directives value) (htype : q.type = .integer) :
    literalOf (typeOf directives q.rendered) q.rendered = ⟨q.value, q.unsigned, q.long⟩ := by
  by_cases hnew : typeOf directives q.rendered = .integer
  · rw [literalOf, if_pos hnew, h.ofValue_rendered hspelled htype]
  · -- the type was left to a value that has no integer's shape, so it has no suffix
    have hleaves : leavesType directives = true := by
      by_contra hnot
      refine hnew ?_
      rw [typeOf_eq (by simpa using hnot) _ value, ← hp, ← h.type_eq, htype]
    have hsuffix : q.suffix = [] := by
      by_contra hne
      rw [typeOf_of_leavesType hleaves, if_pos (hspelled.shape htype hne hleaves)] at hnew
      exact hnew rfl
    obtain ⟨hunsigned, hlong⟩ := suffix_eq_nil_iff.1 hsuffix
    rw [literalOf, if_neg hnew, rendered_eq_value fun _ => hsuffix, hunsigned, hlong]

theorem Settled.digits_literalOf (h : Settled p q) (hspelled : Spelled directives q)
    (hp : p.type = typeOf directives value) (htype : q.type ≠ .integer) :
    (literalOf (typeOf directives q.rendered) q.rendered).digits = q.value := by
  rw [rendered_eq_value fun hint => absurd hint htype]
  by_cases hnew : typeOf directives q.value = .integer
  · -- the type was left to the values: the old one was a text, and the new one looks like an integer
    have hleaves : leavesType directives = true := by
      by_contra hnot
      refine htype ?_
      rw [h.type_eq, hp, typeOf_eq (by simpa using hnot) value q.value, hnew]
    have hshape : ParamType.isIntegerLiteral (trim q.value.toList) = true := by
      by_contra hnot
      rw [typeOf_of_leavesType hleaves, if_neg hnot] at hnew
      cases hnew
    have htext : q.type = .text := by
      rw [h.type_eq, hp, typeOf_of_leavesType hleaves]
      refine if_neg fun hold => htype ?_
      rw [h.type_eq, hp, typeOf_of_leavesType hleaves, if_pos hold]
    rw [literalOf, if_pos hnew]
    exact hspelled.text htext hleaves hshape
  · rw [literalOf, if_neg hnew]

/-- Reading what is written for a parameter that took values, and taking that over into the parameter
as it was read first, gives the parameter that was written. -/
theorem takeValue_ofComment {comment : Header.Comment} {d d' : Comment.Define}
    (h : Settled (ofComment comment d) q) (hspelled : Spelled comment.directives q)
    (hvalue : d'.value = q.rendered) :
    Header.takeValue (ofComment comment d) (ofComment comment d') = q := by
  have htype : (ofComment comment d).type = typeOf comment.directives d.value := rfl
  by_cases hint : q.type = .integer
  · have hliteral := h.literalOf_integer hspelled htype hint
    rw [← hvalue] at hliteral
    -- a suffix that the comment asks for was there from the beginning
    have hunsigned : (comment.directives.unsigned || q.unsigned) = q.unsigned := by
      refine Bool.or_eq_right_iff_imp.2 ?_
      intro hu
      exact h.unsigned (Bool.or_eq_true_iff.2 (.inl hu))
    have hlong : (comment.directives.long || q.long) = q.long := by
      refine Bool.or_eq_right_iff_imp.2 ?_
      intro hl
      exact h.long (Bool.or_eq_true_iff.2 (.inl hl))
    rw [Header.takeValue, if_pos (h.type_eq ▸ hint)]
    refine eq_of_declared h.declared ?_ ?_ ?_
    · simp only [ofComment, hliteral]
    · simp only [ofComment, hliteral, hunsigned]
    · simp only [ofComment, hliteral, hlong]
  · have hdigits := h.digits_literalOf hspelled htype hint
    rw [← hvalue] at hdigits
    obtain ⟨hunsigned, hlong⟩ := h.flags hint
    rw [Header.takeValue, if_neg (h.type_eq ▸ hint)]
    exact eq_of_declared h.declared hdigits hunsigned.symm hlong.symm

end Parameter

end Configurator
