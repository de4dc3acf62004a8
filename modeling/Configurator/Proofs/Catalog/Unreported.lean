import Configurator.Proofs.Header.Integers
import Configurator.Proofs.NameMap
import Configurator.Proofs.Outcome

/-!
# Edits that are not reported as changes

Giving a parameter a value is reported as a change when the value has another text than before. The
suffixes of an integer are kept apart from that text. So there are two kinds of edits that are not
reported: those that leave the whole catalogue as it was, and those that give an integer a suffix which
it lacked, after which it is written differently (`setParameter_unreported_iff`).
-/

namespace Configurator

open Text

/-! ## Taking the value that is there -/

/-- A new value, blanks around it aside, as an integer. -/
def IntegerLiteral.ofText (text : String) : IntegerLiteral :=
  ofValue (String.ofList (trim text.toList))

namespace Parameter

variable {p q : Parameter} {choices : Option ValueList} {text : String}

/-- Whether a new value gives an integer parameter no suffix that it lacks. -/
def AddsNoSuffix (p : Parameter) (text : String) : Prop :=
  p.type = .integer →
    ((IntegerLiteral.ofText text).unsigned = true → p.unsigned = true)
      ∧ ((IntegerLiteral.ofText text).long = true → p.long = true)

theorem suffix_eq_iff : q.suffix = p.suffix ↔ q.unsigned = p.unsigned ∧ q.long = p.long := by
  unfold suffix
  cases q.unsigned <;> cases q.long <;> cases p.unsigned <;> cases p.long <;> simp

/-- The suffixes stay exactly if the new value adds none. -/
theorem suffixes_accept_iff (h : p.accept choices text = .ok q) :
    q.unsigned = p.unsigned ∧ q.long = p.long ↔ p.AddsNoSuffix text := by
  rcases accept_eq_ok h with ⟨htype, value, -, rfl⟩ | ⟨htype, hint⟩ | ⟨htype, rfl⟩
  · exact iff_of_true ⟨rfl, rfl⟩ fun hint => absurd (htype.symm.trans hint) (by decide)
  · obtain ⟨literal, n, hliteral, -, -, rfl⟩ := acceptInteger_eq_ok hint
    rw [AddsNoSuffix, IntegerLiteral.ofText, ← hliteral, forall_prop_of_true htype]
    exact and_congr Bool.or_eq_left_iff_imp Bool.or_eq_left_iff_imp
  · refine iff_of_true ⟨rfl, rfl⟩ fun hint => ?_
    rcases htype with htype | htype <;> exact absurd (htype.symm.trans hint) (by decide)

/-- A parameter that takes the text which it has is the same afterwards exactly if that adds no
suffix. -/
theorem eq_iff_of_accept (h : p.accept choices text = .ok q) (hvalue : q.value = p.value) :
    q = p ↔ p.AddsNoSuffix text := by
  rw [← suffixes_accept_iff h]
  constructor
  · rintro rfl
    exact ⟨rfl, rfl⟩
  · rintro ⟨hunsigned, hlong⟩
    exact (eq_of_declared (declared_accept h).symm hvalue hunsigned hlong)

/-- It is written in the same way exactly if it is the same. -/
theorem rendered_eq_iff_of_accept (h : p.accept choices text = .ok q) (hvalue : q.value = p.value) :
    q.rendered = p.rendered ↔ p.AddsNoSuffix text := by
  have htype : q.type = p.type := congrArg (·.type) (declared_accept h)
  rw [← String.toList_inj, toList_rendered, toList_rendered, hvalue, htype, List.append_cancel_left_eq]
  by_cases hint : p.type = .integer
  · rw [if_pos hint, if_pos hint, suffix_eq_iff, suffixes_accept_iff h]
  · rw [if_neg hint, if_neg hint]
    exact iff_of_true rfl fun hint' => absurd hint' hint

end Parameter

/-! ## Putting a parameter at its own place -/

theorem Header.update_self {h : Header} {name : String} {p : Parameter} (hp : h.get? name = some p) :
    h.update name (fun _ => p) = h := by
  obtain ⟨hmem, hname⟩ := get?_eq_some_iff.1 hp
  have hsame : ∀ q ∈ h.params,
      { (if q.name = name then p else q) with name := q.name, span := q.span } = q := by
    intro q hq
    split
    · next hqname =>
      rw [List.inj_on_of_nodup_map h.names_nodup hq hmem (hqname.trans hname.symm)]
    · rfl
  exact ext rfl ((List.map_congr_left hsame).trans (List.map_id' _)) rfl

namespace Catalog

variable {c d : Catalog} {configuration name value : String} {change : Change}

theorem withParameter_self {p : Parameter} (hp : c.parameter configuration name = .ok p) :
    c.withParameter configuration name p = c := by
  obtain ⟨h, hh, hget⟩ := parameter_eq_ok_iff.1 hp
  have hheaders : (c.headers.modify configuration fun h => h.update name fun _ => p) = c.headers :=
    NameMap.modify_self fun k hk => by
      rw [hh, Option.some.injEq] at hk
      exact Header.update_self (hk ▸ hget)
  rw [withParameter, modifyHeader, hheaders]

/-- An edit after which the parameter is the same changes nothing. -/
theorem eq_of_setParameter_self {p : Parameter} (hp : c.parameter configuration name = .ok p)
    (haccept : p.accept (p.valueList.bind c.lists.get?) value = .ok p)
    (h : c.setParameter configuration name value = .ok (change, d)) : d = c := by
  obtain ⟨old, new, e, hold, hnew, rfl, hd⟩ := setParameter_eq_ok h
  rw [hp, Except.ok.injEq] at hold
  subst hold
  rw [haccept, Except.ok.injEq] at hnew
  subst hnew
  rw [withParameter_self hp] at hd
  have hquiet : c.IsQuiet configuration p p := .inr (.inr (.inr rfl))
  rcases hd with ⟨-, rfl⟩ | ⟨hloud, -⟩ | ⟨hloud, -⟩
  · rfl
  · exact absurd hquiet hloud
  · exact absurd hquiet hloud

/-! ## Unreported edits -/

/-- Whether a parameter and the header that holds it are written in two states in the same way. -/
def WritesSame (c d : Catalog) (configuration name : String) : Prop :=
  ∃ old new h k, c.parameter configuration name = .ok old ∧ d.parameter configuration name = .ok new
    ∧ c.headers.get? configuration = some h ∧ d.headers.get? configuration = some k
    ∧ new.rendered = old.rendered ∧ k.render = h.render

theorem writesSame_self {p : Parameter} (hp : c.parameter configuration name = .ok p) :
    c.WritesSame c configuration name := by
  obtain ⟨h, hh, -⟩ := parameter_eq_ok_iff.1 hp
  exact ⟨p, p, h, h, hp, hp, hh, hh, rfl, rfl⟩

/-- An edit that succeeds and is not reported as a change leaves what is written as it was exactly if it
adds no suffix; and then it leaves the whole catalogue as it was. -/
theorem setParameter_unreported_iff (h : c.setParameter configuration name value = .ok (change, d))
    (hunreported : change.changed = false) :
    ∃ old, c.parameter configuration name = .ok old
      ∧ (c.WritesSame d configuration name ↔ old.AddsNoSuffix value)
      ∧ (old.AddsNoSuffix value ↔ d = c) := by
  obtain ⟨old, new, hold, hnew, hafter, holdvalue, hnewvalue⟩ := exists_parameter_setParameter h
  have hvalue : old.value = new.value := by
    rw [← hnewvalue, ← holdvalue]
    simpa [Change.changed] using hunreported
  have hsame : old.AddsNoSuffix value ↔ d = c := by
    rw [← Parameter.eq_iff_of_accept hnew hvalue.symm]
    constructor
    · rintro rfl
      exact eq_of_setParameter_self hold hnew h
    · rintro rfl
      rwa [hold, Except.ok.injEq, eq_comm] at hafter
  refine ⟨old, hold, ⟨fun hwrites => ?_, fun hadds => ?_⟩, hsame⟩
  · obtain ⟨old', new', -, -, hold', hnew', -, -, hrendered, -⟩ := hwrites
    rw [hold, Except.ok.injEq] at hold'
    rw [hafter, Except.ok.injEq] at hnew'
    subst hold' hnew'
    exact (Parameter.rendered_eq_iff_of_accept hnew hvalue.symm).1 hrendered
  · rw [hsame.1 hadds]
    exact writesSame_self hold

theorem setParameter_limit (value : String) (new : Parameter)
    (hnew : (limit.accept none value).toOption = some new) :
    (build "" [] [limitHeader] []).setParameter "cfg_limit.h" "LIMIT" value
      = .ok (⟨"cfg_limit.h", "LIMIT", "10", new.value, [], []⟩,
        (build "" [] [limitHeader] []).withParameter "cfg_limit.h" "LIMIT" new) :=
  setParameter_of_type_ne_boolean parameter_limitHeader (Outcome.toOption_eq_some_iff.1 hnew) (by decide)

/-- The limit is given the ten that it has, between blanks. -/
theorem setParameter_unreported_limit :
    let c := build "" [] [limitHeader] []
    ∃ change d, c.setParameter "cfg_limit.h" "LIMIT" " 10 " = .ok (change, d)
      ∧ change.changed = false
      ∧ ∃ old, c.parameter "cfg_limit.h" "LIMIT" = .ok old
        ∧ (c.WritesSame d "cfg_limit.h" "LIMIT" ↔ old.AddsNoSuffix " 10 ")
        ∧ (old.AddsNoSuffix " 10 " ↔ d = c) := by
  intro c
  have hset := setParameter_limit " 10 " limit (by decide +kernel)
  exact ⟨_, _, hset, rfl, setParameter_unreported_iff hset rfl⟩

/-- Given with a suffix, the same ten is written with it, and that is not reported. -/
theorem not_writesSame_limit :
    let c := build "" [] [limitHeader] []
    ∃ change d, c.setParameter "cfg_limit.h" "LIMIT" "10U" = .ok (change, d)
      ∧ change.changed = false ∧ ¬ c.WritesSame d "cfg_limit.h" "LIMIT" := by
  intro c
  have hset := setParameter_limit "10U" { limit with unsigned := true } (by decide +kernel)
  have hafter : (c.withParameter "cfg_limit.h" "LIMIT" { limit with unsigned := true }).parameter
      "cfg_limit.h" "LIMIT" = .ok { limit with unsigned := true } :=
    parameter_withParameter_self parameter_limitHeader rfl
  refine ⟨_, _, hset, rfl, ?_⟩
  rintro ⟨old, new, -, -, hold, hnew, -, -, hrendered, -⟩
  rw [parameter_limitHeader, Except.ok.injEq] at hold
  rw [hafter, Except.ok.injEq] at hnew
  subst hold hnew
  revert hrendered
  decide

end Catalog

end Configurator
