import Configurator.Proofs.Header.Integers
import Configurator.Proofs.Project.Restoration

/-!
# Recorded values are taken again

A project records a parameter as it is written in a header, suffixes included, and a fresh parameter
takes that text as its value. What comes out is written in the same way (`Parameter.rendered_restored`),
because accepting a value brings it into a form that is accepted as it is. The exception are integers
that begin with a plus sign and have suffixes: behind a plus sign suffixes are not looked for.
-/

namespace Configurator

open Text

namespace Parameter

variable {p q r : Parameter} {choices : Option ValueList} {text : String}

/-! ## Values that were taken -/

/-- Parameters that follow a module take no value. -/
theorem type_ne_autoenabled_of_accept (h : p.accept choices text = .ok q) :
    q.type ≠ .autoenabled := by
  have htype : q.type = p.type := congrArg (·.type) (declared_accept h)
  rcases accept_eq_ok h with ⟨hp, -⟩ | ⟨hp, -⟩ | ⟨hp | hp, -⟩ <;> simp [htype, hp]

/-- Suffixes add no blanks. -/
theorem trim_rendered (h : trim p.value.toList = p.value.toList) :
    trim p.rendered.toList = p.rendered.toList := by
  rw [toList_rendered]
  refine trim_append h fun c hc => ?_
  split at hc
  · exact (isSuffixLetter_of_mem_suffix hc).not_isBlank
  · cases hc

/-- What is written for an integer that was taken is read as its digits and suffixes, unless it begins
with a plus sign. -/
theorem ofValue_rendered_acceptInteger (h : q.acceptInteger text = .ok r) (htype : q.type = .integer)
    (hsign : r.suffix ≠ [] → IntegerLiteral.looksNumeric r.value.toList = true) :
    IntegerLiteral.ofValue (String.ofList (trim r.rendered.toList))
      = ⟨r.value, r.unsigned, r.long⟩ := by
  obtain ⟨literal, n, hliteral, hread, -, hr⟩ := acceptInteger_eq_ok h
  have hvalue : r.value = literal.digits := by rw [hr]
  have hrtype : r.type = .integer := by rw [hr]; exact htype
  have htrimmed : trim r.value.toList = r.value.toList := by
    rw [hvalue, hliteral]
    exact IntegerLiteral.trim_digits_ofValue (by simp)
  obtain ⟨before, c, hlast, hhex⟩ := exists_last_of_readInteger? hread
  rw [← hvalue, htrimmed] at hlast
  rw [trim_rendered htrimmed, String.ofList_toList]
  by_cases hsuffix : r.suffix = []
  · obtain ⟨hunsigned, hlong⟩ := suffix_eq_nil_iff.1 hsuffix
    rw [rendered_eq_value fun _ => hsuffix, hunsigned, hlong, hvalue, hliteral]
    exact IntegerLiteral.ofValue_digits _
  · have hnumeric : IntegerLiteral.isNumeric r.value.toList = true := by
      rw [IntegerLiteral.isNumeric, hlast, List.getLast?_concat, Option.any_some, hhex, ← hlast,
        hsign hsuffix]
      rfl
    rw [rendered_eq_written hrtype]
    exact IntegerLiteral.ofValue_written hnumeric

/-- An integer that was taken is taken again as it is written. -/
theorem acceptInteger_rendered (hdecl : q.declared = p.declared)
    (hr : q.acceptInteger text = .ok r) (htype : q.type = .integer)
    (hunsigned : p.unsigned = true → r.unsigned = true) (hlong : p.long = true → r.long = true)
    (hsign : r.suffix ≠ [] → IntegerLiteral.looksNumeric r.value.toList = true) :
    ∃ r', p.acceptInteger r.rendered = .ok r' ∧ r'.rendered = r.rendered := by
  have hptype : p.type = .integer := (congrArg (·.type) hdecl).symm.trans htype
  have hliteral := ofValue_rendered_acceptInteger hr htype hsign
  obtain ⟨literal, n, -, hread, hbounds, hreq⟩ := acceptInteger_eq_ok hr
  have hrtype : r.type = .integer := by rw [hreq]; exact htype
  have hvalue : literal.digits = r.value := by rw [hreq]
  have hbounds' : p.outOfBounds? n = none := by
    have hmin : q.min = p.min := congrArg (·.min) hdecl
    have hmax : q.max = p.max := congrArg (·.max) hdecl
    rwa [outOfBounds?, ← hmin, ← hmax]
  rw [hvalue] at hread
  refine ⟨_, acceptInteger_of_ofValue hliteral hread hbounds', ?_⟩
  have hunsigned' : (p.unsigned || r.unsigned) = r.unsigned :=
    Bool.or_eq_right_iff_imp.2 hunsigned
  have hlong' : (p.long || r.long) = r.long := Bool.or_eq_right_iff_imp.2 hlong
  simp only [rendered, hptype, hrtype, hunsigned', hlong']

/-- A text that was taken is taken again without the blanks around it. -/
theorem accept_trim (hr : q.accept choices text = .ok r) (htype : p.type = q.type)
    (hq : q.type = .enum ∨ q.type = .text) :
    p.accept choices (String.ofList (trim text.toList))
      = .ok { p with value := String.ofList (trim text.toList) } := by
  unfold accept at hr ⊢
  rw [htype]
  rcases hq with hq | hq
  · rw [hq] at hr ⊢
    cases choices with
    | none => simp
    | some list =>
        by_cases hlisted : String.ofList (trim text.toList) ∈ list.values
        · simp [hlisted]
        · simp [hlisted] at hr
  · rw [hq]
    simp

/-- A value that was taken is taken again as it is written. -/
theorem accept_rendered (hdecl : q.declared = p.declared) (hr : q.accept choices text = .ok r)
    (hunsigned : p.unsigned = true → r.unsigned = true) (hlong : p.long = true → r.long = true)
    (hsign : r.type = .integer → r.suffix ≠ [] →
      IntegerLiteral.looksNumeric r.value.toList = true) :
    ∃ r', p.accept choices r.rendered = .ok r' ∧ r'.rendered = r.rendered := by
  have htype : p.type = q.type := (congrArg (·.type) hdecl).symm
  have hrtype : r.type = q.type := congrArg (·.type) (declared_accept hr)
  rcases accept_eq_ok hr with ⟨hq, value, hform, rfl⟩ | ⟨hq, hint⟩ | ⟨hq, rfl⟩
  · have hrendered : ({ q with value } : Parameter).rendered = value := by simp [rendered, hq]
    have hvalue : booleanForm? value = some value := by
      rcases booleanForm?_eq hform with rfl | rfl <;> decide
    refine ⟨{ p with value }, ?_, ?_⟩
    · rw [hrendered]
      simp [accept, htype, hq, hvalue]
    · rw [hrendered]
      simp [rendered, htype, hq]
  · have haccept : p.accept choices r.rendered = p.acceptInteger r.rendered := by
      unfold accept
      rw [htype, hq]
    rw [haccept]
    exact acceptInteger_rendered hdecl hint hq hunsigned hlong (hsign (hrtype.trans hq))
  · have hint : q.type ≠ .integer := fun heq => by simp [heq] at hq
    have hrendered : ({ q with value := String.ofList (trim text.toList) } : Parameter).rendered
        = String.ofList (trim text.toList) := by
      simp [rendered, hint]
    rw [hrendered]
    refine ⟨_, accept_trim hr htype hq, ?_⟩
    simp [rendered, htype, hint]

/-- A value that was taken is written in the same way once it has been restored. -/
theorem rendered_restored (hdecl : q.declared = p.declared) (hr : q.accept choices text = .ok r)
    (hunsigned : p.unsigned = true → r.unsigned = true) (hlong : p.long = true → r.long = true)
    (hsign : r.type = .integer → r.suffix ≠ [] →
      IntegerLiteral.looksNumeric r.value.toList = true) :
    (p.restored choices r.rendered).rendered = r.rendered := by
  obtain ⟨r', haccept, hrendered⟩ := accept_rendered hdecl hr hunsigned hlong hsign
  rw [restored, haccept]
  exact hrendered

end Parameter

namespace Project

open Catalog

variable {c : Catalog}

/-! ## Parameters of a restored state -/

/-- A parameter of a restored state is that of the fresh catalogue, perhaps with a recorded value. -/
theorem exists_parameter_restoreValues (hidle : c.Idle) (p : Project) {path name : String}
    {q : Parameter} (hq : (p.restoreValues c).2.parameter path name = .ok q) :
    ∃ old, c.parameter path name = .ok old
      ∧ (q = old ∨ ∃ value, q = old.restored (old.valueList.bind c.lists.get?) value) := by
  obtain ⟨old, hold, -⟩ := exists_parameter (onlyValues_restoreValues hidle p).declared hq
  refine ⟨old, hold, ?_⟩
  by_cases hrecorded : ∃ value, ((path, name), value) ∈ p.recorded
  · obtain ⟨value, hmem⟩ := hrecorded
    rw [parameter_restoreValues hidle hmem hold, Except.ok.injEq] at hq
    exact .inr ⟨value, hq.symm⟩
  · have hnot : (path, name) ∉ p.recorded.map (·.1) := fun hmem => by
      obtain ⟨⟨key, value⟩, hmem, rfl⟩ := List.mem_map.1 hmem
      exact hrecorded ⟨value, hmem⟩
    have hstart : (([], c) : List String × Catalog).2.Idle := hidle
    rw [restoreValues_eq, parameter_foldl_of_not_mem hstart hnot, hold, Except.ok.injEq] at hq
    exact .inl hq.symm

/-- Selecting the recorded modules leaves the restored values alone. -/
theorem sameGraph_applyTo (hidle : c.Idle) (p : Project) :
    SameGraph (p.applyTo c).2 (p.restoreValues c).2 := by
  have hstart := selecting_restoreValues hidle p
  exact ⟨(hstart.foldl _).graph.declared, (hstart.foldl _).graph.headers⟩

theorem parameter_applyTo (hidle : c.Idle) (p : Project) (path name : String) :
    (p.applyTo c).2.parameter path name = (p.restoreValues c).2.parameter path name := by
  rw [parameter, parameter, (sameGraph_applyTo hidle p).headers]

/-- Restoring a state takes no suffix from a parameter. -/
theorem exists_parameter_applyTo (hidle : c.Idle) (p : Project) {path name : String} {q : Parameter}
    (hq : (p.applyTo c).2.parameter path name = .ok q) :
    ∃ old, c.parameter path name = .ok old ∧ q.declared = old.declared
      ∧ (old.unsigned = true → q.unsigned = true) ∧ (old.long = true → q.long = true) := by
  rw [parameter_applyTo hidle] at hq
  obtain ⟨old, hold, rfl | ⟨value, rfl⟩⟩ := exists_parameter_restoreValues hidle p hq
  · exact ⟨q, hold, rfl, id, id⟩
  · refine ⟨old, hold, Parameter.declared_restored .., ?_⟩
    unfold Parameter.restored
    split
    · next new hnew => exact Parameter.suffixes_accept hnew
    · exact ⟨id, id⟩

end Project

end Configurator
