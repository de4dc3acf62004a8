import Mathlib
import Configurator.Proofs.Header.Parsing

/-!
# Writing a header that was read

A header is written back as it was read, except that integers get their suffixes anew: first `U`, then
`L`, each once, and also those that only a directive asks for. So the text comes back exactly if each
integer has its suffixes in that form already (`render_parse_iff`). Values within another value do not
count, since only the outer one is written.
-/

namespace Configurator.Header

/-- Whether the value of a parameter begins within the value of another one. -/
def IsInner (h : Header) (p : Parameter) : Prop :=
  ∃ q ∈ h.params, q.span.start < p.span.start ∧ p.span.start < q.span.stop

variable {path source : String} {h : Header}

/-! ## The edits of a header as it was read -/

theorem respells_of_mem (hparse : Header.parse path source = .ok h) {p : Parameter}
    (hp : p ∈ h.params) : Respells source.toList (p.span, p.rendered.toList) := by
  obtain ⟨d, style, head, post, hpd, hstands⟩ := exists_stands hparse hp
  exact (respells_of_stands hstands hpd).2

/-- A value that begins within another does not reach beyond it. -/
theorem stop_le_of_lt (hparse : Header.parse path source = .ok h) {p q : Parameter}
    (hp : p ∈ h.params) (hq : q ∈ h.params) (hlt : p.span.start < q.span.start)
    (hin : q.span.start < p.span.stop) : q.span.stop ≤ p.span.stop := by
  obtain ⟨d, style, head, post, hpd, hstands⟩ := exists_stands hparse hp
  obtain ⟨e, style', head', post', hqe, hstands'⟩ := exists_stands hparse hq
  rw [Parameter.span_ofDefine hpd, Parameter.span_ofDefine hqe] at *
  exact hstands.stop_le hstands' hlt hin

theorem pairwise_edits (hparse : Header.parse path source = .ok h) :
    h.edits.Pairwise fun x e => x.1.start < e.1.start :=
  pairwise_edits_of_distinct (pairwise_params hparse)

theorem pairwise_edits_nested (hparse : Header.parse path source = .ok h) :
    h.edits.Pairwise fun x e => e.1.start < x.1.stop → e.1.stop ≤ x.1.stop := by
  refine (pairwise_edits hparse).imp_of_mem fun {x e} hx he hlt hin => ?_
  obtain ⟨p, hp, rfl⟩ := exists_of_mem_edits hx
  obtain ⟨q, hq, rfl⟩ := exists_of_mem_edits he
  exact stop_le_of_lt hparse hp hq hlt hin

/-! ## When the text comes back -/

/-- The text comes back exactly if each value is written as it stands in the text. -/
theorem render_eq_source_iff (hparse : Header.parse path source = .ok h) :
    h.render = source
      ↔ ∀ p ∈ h.params, ¬ h.IsInner p → p.rendered.toList = Span.slice source.toList p.span := by
  have hsource : h.source = source := (parse_eq_ok hparse).2.1
  have hes : ∀ e ∈ h.edits, Respells source.toList e := by
    intro e he
    obtain ⟨p, hp, rfl⟩ := exists_of_mem_edits he
    exact respells_of_mem hparse hp
  have hskip : ∀ e ∈ h.edits, e.1.start < 0 → e.1.stop ≤ 0 :=
    fun e _ hlt => absurd hlt (Nat.not_lt_zero _)
  have hsplice :=
    splice_eq_drop_iff hes (pairwise_edits hparse) (pairwise_edits_nested hparse) hskip
  have hrender : h.render = source
      ↔ splice source.toList 0 h.edits = source.toList.drop 0 := by
    rw [render, hsource, List.drop_zero]
    constructor
    · intro heq
      have hlist := congrArg String.toList heq
      rwa [String.toList_ofList] at hlist
    · intro heq
      rw [heq, String.ofList_toList]
  rw [hrender, hsplice]
  constructor
  · intro hall p hp hinner
    refine hall _ (mem_edits hp) (Nat.zero_le _) fun x hx hcovers => hinner ?_
    obtain ⟨q, hq, rfl⟩ := exists_of_mem_edits hx
    exact ⟨q, hq, hcovers⟩
  · intro hall e he _ hcover
    obtain ⟨p, hp, rfl⟩ := exists_of_mem_edits he
    refine hall p hp ?_
    intro hinner
    obtain ⟨q, hq, hcovers⟩ := hinner
    exact hcover _ (mem_edits hq) hcovers

/-- A value other than an integer is written as it stands in the text. -/
theorem rendered_of_type_ne_integer (hparse : Header.parse path source = .ok h) {p : Parameter}
    (hp : p ∈ h.params) (htype : p.type ≠ .integer) :
    p.rendered.toList = Span.slice source.toList p.span := by
  obtain ⟨d, style, head, post, hpd, hstands⟩ := exists_stands hparse hp
  rw [(respells_of_stands hstands hpd).1, Parameter.toList_rendered, if_neg htype, List.append_nil]
  obtain ⟨comment, -, rfl⟩ := Parameter.ofDefine_eq_ok_iff.1 hpd
  have hliteral : Parameter.literalOf (Parameter.typeOf comment.directives d.value) d.value
      = ⟨d.value, false, false⟩ := if_neg htype
  exact congrArg String.toList (congrArg IntegerLiteral.digits hliteral)

/-- Writing a header that was read gives its text back exactly if each integer stands there as its
digits, then `U` if it is unsigned, and then `L` if it is long. -/
theorem render_parse_iff (hparse : Header.parse path source = .ok h) :
    h.render = source
      ↔ ∀ p ∈ h.params, p.type = .integer → ¬ h.IsInner p →
          Span.slice source.toList p.span
            = p.value.toList ++ (if p.unsigned then ['U'] else []) ++ (if p.long then ['L'] else [])
    := by
  rw [render_eq_source_iff hparse]
  constructor
  · intro hall p hp htype hinner
    rw [← hall p hp hinner, Parameter.toList_rendered, if_pos htype, Parameter.suffix,
      List.append_assoc]
  · intro hall p hp hinner
    by_cases htype : p.type = .integer
    · rw [hall p hp htype hinner, Parameter.toList_rendered, if_pos htype, Parameter.suffix,
        List.append_assoc]
    · exact rendered_of_type_ne_integer hparse hp htype

/-! ## Suffixes of one integer -/

/-- An integer with both suffixes, whose value begins at a place of its header. -/
def timeoutAt (start stop : Nat) : Parameter where
  name := "TIMEOUT"
  value := "10"
  type := .integer
  min := none
  max := none
  long := true
  unsigned := true
  valueList := none
  conditionalDeps := []
  supports := none
  brief := ""
  description := ""
  extra := .empty
  span := ⟨start, stop⟩

/-- A header with an integer, its suffix in the form in which it is written. -/
def timeoutHeader : String :=
  "/** */\n#define TIMEOUT 10UL\n"

/-- A header with an integer whose suffix has `L` twice. -/
def longTimeoutHeader : String :=
  "/// $WIZ$ type = \"int\"\n#define TIMEOUT 10ULL\n"

theorem documentedDefines_timeoutHeader : Comment.documentedDefines timeoutHeader.toList
    = [⟨[], "TIMEOUT", "10UL", ⟨23, 27⟩, 0⟩] := by cbv

theorem parse_timeoutHeader : Header.parse "cfg_ser.h" timeoutHeader
    = .ok ⟨"cfg_ser.h", [timeoutAt 23 27], by simp, timeoutHeader⟩ :=
  parse_of_documentedDefines_eq documentedDefines_timeoutHeader
    (Parameter.ofDefine_eq_ok_iff.2 ⟨{}, rfl, by decide⟩) _

theorem parse_longTimeoutHeader : Header.parse "cfg_ser.h" longTimeoutHeader
    = .ok ⟨"cfg_ser.h", [timeoutAt 39 44], by simp, longTimeoutHeader⟩ := by
  have hdefines : Comment.documentedDefines longTimeoutHeader.toList
      = [⟨["$WIZ$ type = \"int\""], "TIMEOUT", "10ULL", ⟨39, 44⟩, 0⟩] := by cbv
  have hcomment : Header.Comment.ofLines ["$WIZ$ type = \"int\""]
      = .ok { directives := { kind := some "int" } } := by cbv
  exact parse_of_documentedDefines_eq hdefines
    (Parameter.ofDefine_eq_ok_iff.2 ⟨_, hcomment, by decide⟩) _

/-- A suffix in the form in which it is written comes back. -/
theorem render_timeoutHeader :
    Header.parse "cfg_ser.h" timeoutHeader
        = .ok ⟨"cfg_ser.h", [timeoutAt 23 27], by simp, timeoutHeader⟩
      ∧ render ⟨"cfg_ser.h", [timeoutAt 23 27], by simp, timeoutHeader⟩ = timeoutHeader := by
  refine ⟨parse_timeoutHeader, (render_parse_iff parse_timeoutHeader).2 fun p hp _ _ => ?_⟩
  rw [List.mem_singleton] at hp
  subst hp
  decide

/-- Of a letter that stands twice only one is written. -/
theorem not_forall_render_eq_source :
    ¬ ∀ path source h, Header.parse path source = .ok h → h.render = source := by
  intro hall
  have hsame := (render_eq_source_iff parse_longTimeoutHeader).1
    (hall _ _ _ parse_longTimeoutHeader) (timeoutAt 39 44) List.mem_cons_self ?_
  · revert hsame
    decide
  · rintro ⟨q, hq, hlt, -⟩
    rw [List.mem_singleton] at hq
    subst hq
    exact absurd hlt (Nat.lt_irrefl _)

end Configurator.Header
