import Configurator.Proofs.Catalog.Change
import Configurator.Proofs.Project.Missing
import Configurator.Proofs.Project.Recording

/-!
# Words for true and false

Two readers look at the value of a flag. One asks whether the value stands for true where it stands, in
a header or a copy of one, and takes all words for true but few. The other brings a value that is given
into its kept form, and knows four words for each of true and false. They agree on all words that the
second one knows but two: `no` and `off` are words for false when they are given, and stand for true
elsewhere (`isTrueText_eq_iff`). So a flag with another of these words is set after its value has been
given, or recorded and restored, exactly if it was set before, and one with these two is not
(`isSet_eq_iff`).
-/

namespace Configurator

open Text

namespace Parameter

variable {p q old : Parameter} {choices : Option ValueList} {text form : String}

/-- Whether a text is one of the words for false that stand for true as long as they are not given. -/
def IsNegation (text : String) : Prop :=
  asciiLower (trim text.toList) = ['n', 'o'] ∨ asciiLower (trim text.toList) = ['o', 'f', 'f']

instance (text : String) : Decidable (IsNegation text) :=
  inferInstanceAs (Decidable (_ ∨ _))

/-- Only a zero is one in lower case. -/
theorem eq_zero_of_toLower {c : Char} (h : c.toLower = '0') : c = '0' := by
  unfold Char.toLower at h
  split at h
  · next hupper =>
    obtain ⟨hlow, hhigh⟩ := hupper
    have hvalue : (c.val + 32).toNat = 48 := congrArg (fun d : Char => d.val.toNat) h
    have hlow' : 65 ≤ c.val.toNat := hlow
    have hhigh' : c.val.toNat ≤ 90 := hhigh
    have hoffset : UInt32.toNat 32 = 32 := rfl
    rw [UInt32.toNat_add] at hvalue
    omega
  · exact h

/-- What counts as false shows in lower case: nothing, zero and `false`. -/
theorem isTrueText_eq (text : String) :
    isTrueText text
      = decide (asciiLower (trim text.toList) ∉ [[], ['0'], ['f', 'a', 'l', 's', 'e']]) := by
  have hzero : asciiLower (trim text.toList) = ['0'] ↔ trim text.toList = ['0'] := by
    constructor
    · intro h
      obtain ⟨c, hc, hlower⟩ := List.map_eq_singleton_iff.1 h
      rw [hc, eq_zero_of_toLower hlower]
    · intro h
      rw [h]
      rfl
  have hnil : asciiLower (trim text.toList) = [] ↔ trim text.toList = [] := List.map_eq_nil_iff
  simp only [isTrueText, List.mem_cons, List.not_mem_nil, or_false, hzero, hnil, decide_not,
    Bool.decide_or, Bool.or_assoc]

/-- Which words are brought into which form. -/
theorem booleanForm?_eq_some_iff :
    booleanForm? text = some form
      ↔ (form = "1" ∧ asciiLower (trim text.toList)
          ∈ [['1'], ['t', 'r', 'u', 'e'], ['y', 'e', 's'], ['o', 'n']])
        ∨ (form = "0" ∧ asciiLower (trim text.toList)
          ∈ [['0'], ['f', 'a', 'l', 's', 'e'], ['n', 'o'], ['o', 'f', 'f']]) := by
  have hwords : ∀ (word : List Char) (words : List (List Char)),
      String.ofList word ∈ words.map String.ofList ↔ word ∈ words :=
    fun _ _ => List.mem_map_of_injective fun _ _ => String.ofList_injective
  have htrue := hwords (asciiLower (trim text.toList))
    [['1'], ['t', 'r', 'u', 'e'], ['y', 'e', 's'], ['o', 'n']]
  have hfalse := hwords (asciiLower (trim text.toList))
    [['0'], ['f', 'a', 'l', 's', 'e'], ['n', 'o'], ['o', 'f', 'f']]
  unfold booleanForm?
  dsimp only
  split
  · next hin =>
    have hin := htrue.1 hin
    have hout : asciiLower (trim text.toList)
        ∉ [['0'], ['f', 'a', 'l', 's', 'e'], ['n', 'o'], ['o', 'f', 'f']] := by
      simp only [List.mem_cons, List.not_mem_nil, or_false] at hin
      rcases hin with h | h | h | h <;> rw [h] <;> decide
    simp [hin, hout, eq_comm]
  · next hout =>
    have hout := mt htrue.2 hout
    split
    · next hin => simp [hfalse.1 hin, hout, eq_comm]
    · next hnone => simp [mt hfalse.2 hnone, hout]

/-- A word that is given stands for the same before and after, unless it is one of the two. -/
theorem isTrueText_eq_iff (h : booleanForm? text = some form) :
    isTrueText form = isTrueText text ↔ ¬ IsNegation text := by
  have hwords := booleanForm?_eq_some_iff.1 h
  simp only [List.mem_cons, List.not_mem_nil, or_false] at hwords
  rw [isTrueText_eq text, IsNegation]
  rcases hwords with ⟨rfl, hword | hword | hword | hword⟩ | ⟨rfl, hword | hword | hword | hword⟩
  all_goals
    rw [hword]
    decide

theorem not_isNegation_of_not_word (h : booleanForm? text = none) : ¬ IsNegation text := by
  intro hword
  have hform : booleanForm? text = some "0" :=
    booleanForm?_eq_some_iff.2 (.inr ⟨rfl, by rcases hword with hword | hword <;> simp [hword]⟩)
  rw [h] at hform
  cases hform

/-- A flag whose value is given back, or stays because it is not taken, is set as it was unless its
value is one of the two words. -/
theorem isSet_restored_iff (hdecl : old.declared = p.declared) (htype : p.type = .boolean)
    (hvalue : booleanForm? p.value ≠ none ∨ old.value = p.value) :
    (old.restored choices p.value).isSet = p.isSet ↔ ¬ IsNegation p.value := by
  have holdtype : old.type = .boolean := (congrArg (·.type) hdecl).trans htype
  rw [restored_of_boolean holdtype]
  simp only [isSet, holdtype, htype, decide_true, Bool.true_and]
  cases hform : booleanForm? p.value with
  | some form => exact isTrueText_eq_iff hform
  | none =>
      have hsame := hvalue.resolve_left (not_not_intro hform)
      rw [Option.getD_none, hsame]
      exact iff_of_true rfl (not_isNegation_of_not_word hform)

/-- Dependencies that are in force stay so with whether the flag is set. -/
theorem activeDeps_eq_iff (hdeps : q.conditionalDeps = p.conditionalDeps) :
    q.activeDeps = p.activeDeps ↔ p.conditionalDeps = [] ∨ q.isSet = p.isSet := by
  rw [activeDeps, activeDeps, hdeps]
  cases q.isSet <;> cases p.isSet <;> simp [eq_comm]

end Parameter

namespace Project

open Catalog
open Parameter (IsNegation booleanForm?)

/-- A flag with a word that is taken is set as it would be with the word as it stands, unless that is
one of the two. -/
theorem exists_isSet_setParameter {c d : Catalog} {path name text : String} {p : Parameter}
    {change : Change} (hp : c.parameter path name = .ok p) (htype : p.type = .boolean)
    (hset : c.setParameter path name text = .ok (change, d)) :
    ∃ q, d.parameter path name = .ok q
      ∧ (q.isSet = ({ p with value := text } : Parameter).isSet ↔ ¬ IsNegation text) := by
  obtain ⟨old, new, hold, hnew, hafter, -⟩ := exists_parameter_setParameter hset
  rw [hp, Except.ok.injEq] at hold
  subst hold
  refine ⟨new, hafter, ?_⟩
  rcases Parameter.accept_eq_ok hnew with ⟨-, form, hform, rfl⟩ | ⟨hint, -⟩ | ⟨hother, -⟩
  · simp only [Parameter.isSet, htype, decide_true, Bool.true_and]
    exact Parameter.isTrueText_eq_iff hform
  · rw [htype] at hint
    cases hint
  · rw [htype] at hother
    simp at hother

/-- Whichever of the eight words a flag has, in a header or a copy of one: given or restored, it leaves
the flag set or not as before exactly if it is neither `no` nor `off`, and then the same dependencies
are in force. A word that is none of the eight cannot be given, and a flag that has it from the tree
keeps it when it is restored. -/
theorem isSet_eq_iff (sourceRoot : String) (modules : List Module) (headers : List Header)
    (lists : List ValueList) (ops : List Operation) (copies : List (String × String))
    (project : Project) :
    let tree := build sourceRoot modules headers lists
    let c := tree.run ops
    let fresh := tree.run (copies.map fun e => .applyUserConfiguration e.1 e.2)
    (∀ path name p text change d, c.parameter path name = .ok p → p.type = .boolean →
      c.setParameter path name text = .ok (change, d) →
      ∃ q, d.parameter path name = .ok q
        ∧ (q.isSet = ({ p with value := text } : Parameter).isSet ↔ ¬ IsNegation text))
    ∧ ∀ path p, c.Records path p → p.type = .boolean →
      (booleanForm? p.value ≠ none
        ∨ ∃ old, fresh.parameter path p.name = .ok old ∧ old.value = p.value) →
      ∃ r, ((project.capture c).applyTo fresh).2.parameter path p.name = .ok r
        ∧ (r.isSet = p.isSet ↔ ¬ IsNegation p.value)
        ∧ (r.activeDeps = p.activeDeps ↔ p.conditionalDeps = [] ∨ ¬ IsNegation p.value) := by
  intro tree c fresh
  constructor
  · intro path name p text change d hp htype hset
    exact exists_isSet_setParameter hp htype hset
  · intro path p hp htype hvalue
    have hbuilt : c.IsBuilt := (isBuilt_build sourceRoot modules headers lists).run ops
    have hidle : fresh.Idle := idle_run_copies_build sourceRoot modules headers lists copies
    have hdecl : c.declared = fresh.declared := (declared_run _ _).trans (declared_run _ _).symm
    obtain ⟨old, hold, hop⟩ := exists_parameter hdecl hp.parameter
    have hrecorded : ((path, p.name), p.value) ∈ (project.capture c).recorded :=
      (mem_recorded_capture_iff hbuilt project).2 ⟨p, hp, rfl, by simp [Parameter.rendered, htype]⟩
    have hafter := parameter_restoreValues hidle hrecorded hold
    generalize hchoices : old.valueList.bind fresh.lists.get? = choices at hafter
    have hset : (old.restored choices p.value).isSet = p.isSet ↔ ¬ IsNegation p.value := by
      refine Parameter.isSet_restored_iff hop htype (hvalue.imp_right ?_)
      rintro ⟨old', hold', hsame⟩
      rw [hold, Except.ok.injEq] at hold'
      rwa [hold']
    have hdeps : (old.restored choices p.value).conditionalDeps = p.conditionalDeps :=
      congrArg (·.conditionalDeps) ((Parameter.declared_restored old choices p.value).trans hop)
    refine ⟨_, (parameter_applyTo hidle _ _ _).trans hafter, hset, ?_⟩
    rw [Parameter.activeDeps_eq_iff hdeps, hset]

/-- With another word for false the flag is cleared as it would be in its header, and with its own value
it comes back. -/
theorem isSet_eq_dmaTree :
    let c := dmaTree.run [.select "ser"]
    (∃ change d q, c.setParameter "cfg_ser.h" "CONFIG_USE_DMA" " False " = .ok (change, d)
        ∧ d.parameter "cfg_ser.h" "CONFIG_USE_DMA" = .ok q
        ∧ q.isSet = ({ dmaFlag with value := " False " } : Parameter).isSet)
      ∧ ∃ r, (((default : Project).capture c).applyTo dmaTree).2.parameter "cfg_ser.h"
          "CONFIG_USE_DMA" = .ok r
        ∧ r.isSet = dmaFlag.isSet ∧ r.activeDeps = dmaFlag.activeDeps := by
  intro c
  have hrecords : c.Records "cfg_ser.h" dmaFlag := records_dmaTree_iff.2 ⟨rfl, rfl⟩
  have hflag : c.parameter "cfg_ser.h" "CONFIG_USE_DMA" = .ok dmaFlag := hrecords.parameter
  have haccept : dmaFlag.accept (dmaFlag.valueList.bind c.lists.get?) " False "
      = .ok { dmaFlag with value := "0" } := rfl
  obtain ⟨⟨change, d⟩, hset⟩ := setParameter_of_ok hflag haccept
  obtain ⟨hgiven, hrestored⟩ := isSet_eq_iff "" _ _ [] [.select "ser"] [] default
  obtain ⟨q, hq, hqset⟩ := hgiven _ _ _ _ _ _ hflag rfl hset
  obtain ⟨r, hr, hrset, hdeps⟩ := hrestored _ _ hrecords rfl (.inl (by decide))
  have hwords : ¬ IsNegation " False " ∧ ¬ IsNegation dmaFlag.value := by decide
  exact ⟨⟨change, d, q, hset, hq, hqset.2 hwords.1⟩, r, hr, hrset.2 hwords.2, hdeps.2 (.inr hwords.2)⟩

/-- A flag that its header spells in another way. -/
def spelledFlag (value : String) : Parameter :=
  { dmaFlag with value }

/-- The module `ser` and the required one, with the flag spelled in another way. -/
def spelledTree (value : String) : Catalog :=
  build "" [plainModule "ser" (some "cfg_ser.h"), plainModule "dma" none]
    [⟨"cfg_ser.h", [spelledFlag value], by simp, ""⟩] []

/-- A flag that its header spells `no` is set, and giving it the same word clears it. -/
theorem not_forall_isSet_eq :
    ¬ ∀ (c : Catalog) path name p change d q, c.parameter path name = .ok p → p.type = .boolean →
      c.setParameter path name p.value = .ok (change, d) → d.parameter path name = .ok q →
      q.isSet = p.isSet := by
  intro hall
  have hflag : (spelledTree "no").parameter "cfg_ser.h" "CONFIG_USE_DMA" = .ok (spelledFlag "no") :=
    parameter_eq_ok_iff.2 ⟨⟨"cfg_ser.h", [spelledFlag "no"], by simp, ""⟩, by cbv, rfl⟩
  have haccept : (spelledFlag "no").accept
      ((spelledFlag "no").valueList.bind (spelledTree "no").lists.get?) "no"
      = .ok (spelledFlag "0") := rfl
  obtain ⟨⟨change, d⟩, hset⟩ := setParameter_of_ok hflag haccept
  obtain ⟨old, new, hold, hnew, hafter, -⟩ := exists_parameter_setParameter hset
  rw [hflag, Except.ok.injEq] at hold
  subst hold
  rw [haccept, Except.ok.injEq] at hnew
  subst hnew
  exact absurd (hall _ _ _ _ _ _ _ hflag rfl hset hafter) (by decide)

end Project

end Configurator
