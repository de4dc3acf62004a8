import Configurator.Proofs.Header.FeedBack
import Configurator.Proofs.Project.Recording

/-!
# Values that last

What is written for a parameter comes back in two ways: it is read from the copy of its header, and what
was recorded of it is given to it as a new value. Then it is written again. Where that gives the same
text, the value lasts. The spelling decides whether it does (`Parameter.Lasting`), and for a whole header
the places of its values as well (`Header.Lasting`).
-/

namespace Configurator

open Text
open Comment (IsTrimmed documentedDefines)

namespace Parameter

variable {directives : Header.Directives} {comment : Header.Comment} {d d' : Comment.Define}
  {p q r : Parameter} {choices : Option ValueList}

/-! ## Spellings that last -/

/-- Whether a value is spelled so that it lasts: without blanks around it, a boolean in the form that
booleans are kept in unless it is no word for true or false, an integer with suffixes that come off
again and are among them those that its comment asks for. If these are added to a number whose shape
decides the type, it has to be one that can be taken as a new value. -/
structure Lasting (directives : Header.Directives) (q : Parameter) : Prop where
  trimmed : trim q.value.toList = q.value.toList
  boolean : q.type = .boolean → ∀ value, booleanForm? q.value = some value → value = q.value
  literal : q.type = .integer → IntegerLiteral.ofValue q.rendered = ⟨q.value, q.unsigned, q.long⟩
  unsigned : q.type = .integer → directives.unsigned = true → q.unsigned = true
  long : q.type = .integer → directives.long = true → q.long = true
  readable : q.type = .integer → leavesType directives = true →
    directives.unsigned = true ∨ directives.long = true → (readInteger? q.value.toList).isSome = true

theorem rendered_of_ne_integer (h : q.type ≠ .integer) : q.rendered = q.value :=
  if_neg h

theorem rendered_congr (htype : p.type = q.type) (hvalue : p.value = q.value)
    (hunsigned : p.unsigned = q.unsigned) (hlong : p.long = q.long) : p.rendered = q.rendered := by
  unfold rendered
  rw [htype, hvalue, hunsigned, hlong]

/-- A parameter that takes a lasting value as it is written is written in the same way. -/
theorem Lasting.rendered_accept (h : q.Lasting directives) (htype : p.type = q.type)
    (hunsigned : q.type = .integer → p.unsigned = true → q.unsigned = true)
    (hlong : q.type = .integer → p.long = true → q.long = true)
    (hr : p.accept choices q.rendered = .ok r) : r.rendered = q.rendered := by
  have hrtype : r.type = q.type := (congrArg (·.type) (declared_accept hr)).trans htype
  rcases accept_eq_ok hr with ⟨hp, value, hform, rfl⟩ | ⟨hp, hint⟩ | ⟨hp, rfl⟩
  · have hne : q.type ≠ .integer := by rw [← htype, hp]; decide
    rw [rendered_of_ne_integer hne] at hform ⊢
    rw [rendered_of_ne_integer (hrtype ▸ hne)]
    exact h.boolean (htype ▸ hp) value hform
  · have hq : q.type = .integer := htype ▸ hp
    obtain ⟨literal, n, hliteral, -, -, rfl⟩ := acceptInteger_eq_ok hint
    rw [trim_rendered h.trimmed, String.ofList_toList, h.literal hq] at hliteral
    subst hliteral
    exact rendered_congr hrtype rfl (Bool.or_eq_right_iff_imp.2 (hunsigned hq))
      (Bool.or_eq_right_iff_imp.2 (hlong hq))
  · have hne : q.type ≠ .integer := by rcases hp with hp | hp <;> rw [← htype, hp] <;> decide
    rw [rendered_of_ne_integer (hrtype ▸ hne)]
    show String.ofList (trim q.rendered.toList) = q.rendered
    rw [trim_rendered h.trimmed, String.ofList_toList]

/-- An integer without bounds takes what is written for a readable number. -/
theorem Lasting.exists_accept (h : q.Lasting directives) (hp : p.type = .integer)
    (hq : q.type = .integer) (hread : (readInteger? q.value.toList).isSome = true)
    (hmin : p.min = none) (hmax : p.max = none) : ∃ r, p.accept choices q.rendered = .ok r := by
  obtain ⟨n, hn⟩ := Option.isSome_iff_exists.1 hread
  have hbounds : p.outOfBounds? n = none := by rw [outOfBounds?, hmin, hmax]; rfl
  have hliteral : IntegerLiteral.ofValue (String.ofList (trim q.rendered.toList))
      = ⟨q.value, q.unsigned, q.long⟩ := by
    rw [trim_rendered h.trimmed, String.ofList_toList, h.literal hq]
  have haccept : p.accept choices q.rendered = p.acceptInteger q.rendered := by
    unfold accept
    rw [hp]
  exact ⟨_, haccept.trans (acceptInteger_of_ofValue hliteral hn hbounds)⟩

/-! ## Reading copies -/

/-- Whether a parameter has the value that a text holds under a comment. -/
structure HasRead (directives : Header.Directives) (text : String) (p : Parameter) : Prop where
  value : p.value = (literalOf (typeOf directives text) text).digits
  unsigned : p.type = .integer →
    p.unsigned = (directives.unsigned || (literalOf (typeOf directives text) text).unsigned)
  long : p.type = .integer →
    p.long = (directives.long || (literalOf (typeOf directives text) text).long)
  min : p.min = directives.min
  max : p.max = directives.max
  typed : leavesType directives = false → p.type = typeOf directives text
  untyped : leavesType directives = true → p.type = .integer ∨ p.type = .text

/-- A parameter that takes over what is read from a copy of its header has that value. -/
theorem hasRead_takeValue (comment : Header.Comment) (d d' : Comment.Define) :
    HasRead comment.directives d'.value
      (Header.takeValue (ofComment comment d) (ofComment comment d')) := by
  have htype : ∀ p other : Parameter, (Header.takeValue p other).type = p.type :=
    fun p other => congrArg (·.type) (declared_takeValue p other)
  refine ⟨?_, fun hint => ?_, fun hint => ?_, ?_, ?_, fun hleaves => ?_, fun hleaves => ?_⟩
  · unfold Header.takeValue
    split <;> rfl
  · rw [htype] at hint
    rw [Header.takeValue, if_pos hint]
    rfl
  · rw [htype] at hint
    rw [Header.takeValue, if_pos hint]
    rfl
  · unfold Header.takeValue
    split <;> rfl
  · unfold Header.takeValue
    split <;> rfl
  · rw [htype]
    exact typeOf_eq hleaves _ _
  · rw [htype]
    show typeOf comment.directives d.value = _ ∨ typeOf comment.directives d.value = _
    rw [typeOf_of_leavesType hleaves]
    split
    · exact .inl rfl
    · exact .inr rfl

/-- What is read for an integer are its digits and suffixes, or all of it as a text. -/
theorem Lasting.literalOf_cases (h : q.Lasting directives) (hq : q.type = .integer) :
    literalOf (typeOf directives q.rendered) q.rendered = ⟨q.value, q.unsigned, q.long⟩
      ∨ typeOf directives q.rendered ≠ .integer
        ∧ literalOf (typeOf directives q.rendered) q.rendered = ⟨q.rendered, false, false⟩ := by
  by_cases hnew : typeOf directives q.rendered = .integer
  · exact .inl (by rw [literalOf, if_pos hnew, h.literal hq])
  · exact .inr ⟨hnew, by rw [literalOf, if_neg hnew]⟩

/-- No integer gets a suffix from the copy of its header that it was not written with. -/
theorem Lasting.suffixes_of_hasRead (h : q.Lasting directives) (hread : HasRead directives q.rendered p)
    (hp : p.type = .integer) (hq : q.type = .integer) :
    (p.unsigned = true → q.unsigned = true) ∧ (p.long = true → q.long = true) := by
  rw [hread.unsigned hp, hread.long hp, Bool.or_eq_true, Bool.or_eq_true]
  rcases h.literalOf_cases hq with hliteral | ⟨-, hliteral⟩
  · rw [hliteral]
    exact ⟨fun hu => hu.elim (h.unsigned hq) id, fun hl => hl.elim (h.long hq) id⟩
  · rw [hliteral]
    exact ⟨fun hu => hu.elim (h.unsigned hq) (by simp), fun hl => hl.elim (h.long hq) (by simp)⟩

/-- An integer that is read from the copy of its header is written in the same way, if it cannot be taken
as a new value. -/
theorem Lasting.rendered_integer (h : q.Lasting directives) (hread : HasRead directives q.rendered p)
    (hp : p.type = .integer) (hq : q.type = .integer)
    (hrefused : ∀ r, p.accept choices q.rendered ≠ .ok r) : p.rendered = q.rendered := by
  rcases h.literalOf_cases hq with hliteral | ⟨hnew, hliteral⟩
  · obtain ⟨hunsigned, hlong⟩ := h.suffixes_of_hasRead hread hp hq
    refine rendered_congr (hp.trans hq.symm) (by rw [hread.value, hliteral])
      (Bool.eq_iff_iff.2 ⟨hunsigned, fun hu => ?_⟩) (Bool.eq_iff_iff.2 ⟨hlong, fun hl => ?_⟩)
    · rw [hread.unsigned hp, hliteral]
      exact Bool.or_eq_true_iff.2 (.inr hu)
    · rw [hread.long hp, hliteral]
      exact Bool.or_eq_true_iff.2 (.inr hl)
  · -- a text was read, so the comment leaves the type to the value, and it must not add a suffix
    have hleaves : leavesType directives = true := by
      by_contra hnot
      exact hnew ((hread.typed (by simpa using hnot)).symm.trans hp)
    have hbounds : directives.min = none ∧ directives.max = none := by
      simp only [leavesType, Bool.and_eq_true, Bool.not_eq_true', Bool.or_eq_false_iff,
        Option.isSome_eq_false_iff, Option.isNone_iff_eq_none] at hleaves
      exact hleaves.2
    have hnone : ¬ (directives.unsigned = true ∨ directives.long = true) := by
      intro hsome
      obtain ⟨r, hr⟩ := h.exists_accept hp hq (h.readable hq hleaves hsome)
        (hread.min.trans hbounds.1) (hread.max.trans hbounds.2)
      exact hrefused r hr
    rw [not_or, Bool.not_eq_true, Bool.not_eq_true] at hnone
    have hvalue : p.value = q.rendered := by rw [hread.value, hliteral]
    refine (rendered_eq_value fun _ => suffix_eq_nil_iff.2 ⟨?_, ?_⟩).trans hvalue
    · rw [hread.unsigned hp, hliteral, hnone.1]
      rfl
    · rw [hread.long hp, hliteral, hnone.2]
      rfl

/-- The same holds for values of other types. -/
theorem rendered_of_hasRead (hread : HasRead directives q.rendered p) (hp : p.type = q.type)
    (hq : q.type ≠ .integer) (hrefused : ∀ r, p.accept choices q.rendered ≠ .ok r) :
    p.rendered = q.rendered := by
  have hne : p.type ≠ .integer := hp ▸ hq
  rw [rendered_of_ne_integer hne, hread.value]
  by_cases hleaves : leavesType directives = true
  · -- a text takes every value
    have htext := (hread.untyped hleaves).resolve_left hne
    exact absurd (by unfold accept; rw [htext]) (hrefused _)
  · have hsame := hread.typed (by simpa using hleaves)
    rw [literalOf, if_neg (hsame ▸ hne)]

/-- A lasting value is written in the same way once what was written has been read from the copy of its
header and recorded values have been restored. -/
theorem Lasting.rendered_restored (h : q.Lasting directives) (hread : HasRead directives q.rendered p)
    (hp : p.type = q.type) (choices : Option ValueList) :
    (p.restored choices q.rendered).rendered = q.rendered := by
  have hsuffixes := fun hq : q.type = .integer => h.suffixes_of_hasRead hread (hp.trans hq) hq
  unfold restored
  split
  · next r hr =>
    exact h.rendered_accept hp (fun hq => (hsuffixes hq).1) (fun hq => (hsuffixes hq).2) hr
  · next rejection hr =>
    have hrefused : ∀ r, p.accept choices q.rendered ≠ .ok r := fun r hok => by
      rw [hok] at hr
      cases hr
    by_cases hq : q.type = .integer
    · exact h.rendered_integer hread (hp.trans hq) hq hrefused
    · exact rendered_of_hasRead hread hp hq hrefused

end Parameter

/-! ## Headers that last -/

namespace Header

/-- Whether what is written for a header lasts: each value that is written differently from the text has
a place for that, and all are spelled so that they last, those aside that follow a module. -/
structure Lasting (h : Header) : Prop where
  placed : ∀ q ∈ h.params, h.keeps q = false → Placed h.source.toList q.span q.rendered.toList
  spelled : ∀ q ∈ h.params, q.type ≠ .autoenabled → ∀ d ∈ documentedDefines h.source.toList,
    d.span = q.span → ∀ comment, Header.Comment.ofLines d.comment = .ok comment →
      q.Lasting comment.directives

variable {path source : String} {h conf : Header}

theorem Lasting.isTrimmed_rendered (hlasting : conf.Lasting)
    (hparse : Header.parse path source = .ok h) (hdecl : conf.declared = h.declared) {q : Parameter}
    (hq : q ∈ conf.params) (htype : q.type ≠ .autoenabled) : IsTrimmed q.rendered.toList := by
  obtain ⟨p, hp, hpq⟩ := exists_of_forall₂ (forall₂_of_declared hdecl) hq
  obtain ⟨d, hd, hpd⟩ := exists_define hparse hp
  obtain ⟨comment, hcomment, rfl⟩ := Parameter.ofDefine_eq_ok_iff.1 hpd
  have hsource : conf.source = source := (source_of_declared hdecl).trans (parse_eq_ok hparse).2.1
  have hspan : d.span = q.span := (congrArg (·.span) hpq).symm
  have hspelled := hlasting.spelled q hq htype d (hsource ▸ hd) hspan comment hcomment
  rw [← Parameter.trim_rendered hspelled.trimmed]
  exact isTrimmed_trim _

/-- What a parameter of a merged header took over. -/
theorem exists_of_mem_merge {copy : Header} {p : Parameter} (hp : p ∈ (h.merge copy).params) :
    ∃ p₀ ∈ h.params, p.name = p₀.name
      ∧ ∀ other, copy.get? p₀.name = some other → p = takeValue p₀ other := by
  obtain ⟨p₀, hp₀, rfl⟩ := List.mem_map.1 hp
  refine ⟨p₀, hp₀, rfl, fun other hget => ?_⟩
  by_cases hint : p₀.type = .integer <;> simp [takeValue, hget, hint]

/-- A header that lasts is read again once it is written, and each value is written in the same way once
the header that was read first has taken over what was read and recorded values have been restored. -/
theorem Lasting.exists_copy (hlasting : conf.Lasting) (hparse : Header.parse path source = .ok h)
    (hdecl : conf.declared = h.declared)
    (hfollows : ∀ q ∈ conf.params, q.type = .autoenabled → IsTrimmed q.rendered.toList) :
    ∃ copy, Header.parse path conf.render = .ok copy
      ∧ ∀ p q, p ∈ (h.merge copy).params → q ∈ conf.params → p.name = q.name →
        q.type ≠ .autoenabled → ∀ choices, (p.restored choices q.rendered).rendered = q.rendered := by
  have hsource : conf.source = source := (source_of_declared hdecl).trans (parse_eq_ok hparse).2.1
  have htrimmed : ∀ q ∈ conf.params, IsTrimmed q.rendered.toList := by
    intro q hq
    by_cases htype : q.type = .autoenabled
    · exact hfollows q hq htype
    · exact hlasting.isTrimmed_rendered hparse hdecl hq htype
  have hw : conf.Rewritable := by
    refine rewritable_of_declared hparse hdecl htrimmed fun q hq hne => ?_
    rw [← hsource] at hne ⊢
    exact hlasting.placed q hq (decide_eq_false hne)
  obtain ⟨copy, hcopy⟩ := exists_parse_render hparse hsource hw
  refine ⟨copy, hcopy, fun p q hp hq hname htype choices => ?_⟩
  obtain ⟨p₀, hp₀, hname₀, htake⟩ := exists_of_mem_merge hp
  obtain ⟨p₁, hp₁, hpq⟩ := exists_of_forall₂ (forall₂_of_declared hdecl) hq
  have hname₁ : q.name = p₁.name := congrArg (·.name) hpq
  obtain rfl : p₀ = p₁ := List.inj_on_of_nodup_map h.names_nodup hp₀ hp₁
    (hname₀.symm.trans (hname.trans hname₁))
  obtain ⟨d, hd, comment, d', hspan, hcomment, rfl, hvalue, hget⟩ :=
    exists_define_render hparse hsource hw hcopy hp₀ hq hpq
  have hspelled := hlasting.spelled q hq htype d (hsource ▸ hd) hspan comment hcomment
  have hread := Parameter.hasRead_takeValue comment d d'
  rw [hvalue, ← htake _ hget] at hread
  refine hspelled.rendered_restored hread ?_ choices
  have hkept := congrArg Parameter.type (Parameter.declared_takeValue (Parameter.ofComment comment d)
    (Parameter.ofComment comment d'))
  rw [htake _ hget]
  exact hkept.trans (congrArg Parameter.type hpq).symm

end Header

end Configurator
