import Configurator.Proofs.Catalog.Closing
import Configurator.Proofs.Header.Integers

/-!
# What restoring reports

Restoring a project reports what it records and cannot bring back. This is not only what a tree does not
have any more: a recorded value is given to its parameter like one that somebody types in, and counts as
missing as well if the parameter does not take it (`mem_applyTo_capture_iff`). A header may write values
that its own parameters do not take, a macro for an integer say, and then even the tree that a project
was recorded from is reported to lack something.
-/

namespace Configurator

/-! ## Values that parameters take -/

namespace Parameter

variable {p q : Parameter} {choices : Option ValueList} {text : String}

/-- Whether a text is a value for a parameter of its type. -/
def Takes (p : Parameter) (choices : Option ValueList) (text : String) : Prop :=
  match p.type with
  | .autoenabled => False
  | .boolean => ∃ form, booleanForm? text = some form
  | .integer => ∃ n, readInteger? (IntegerLiteral.digitsOf text) = some n ∧ p.InBounds n
  | .enum => ∀ list, choices = some list → String.ofList (Text.trim text.toList) ∈ list.values
  | .text => True

theorem takes_iff : p.Takes choices text ↔ ∃ q, p.accept choices text = .ok q := by
  unfold Takes
  split
  · next htype => simp [accept, htype]
  · next htype => cases hform : booleanForm? text <;> simp [accept, htype, hform]
  · next htype => exact (accept_integer_iff htype choices text).symm
  · next htype =>
    cases choices with
    | none => simp [accept, htype]
    | some list =>
        by_cases hlisted : String.ofList (Text.trim text.toList) ∈ list.values <;>
          simp [accept, htype, hlisted]
  · next htype => simp [accept, htype]

/-- Which values a parameter takes has nothing to do with the one that it has. -/
theorem takes_congr (hdecl : p.declared = q.declared) :
    p.Takes choices text ↔ q.Takes choices text := by
  have htype : p.type = q.type := congrArg (·.type) hdecl
  have hmin : p.min = q.min := congrArg (·.min) hdecl
  have hmax : p.max = q.max := congrArg (·.max) hdecl
  unfold Takes InBounds
  rw [htype, hmin, hmax]

end Parameter

namespace Catalog

variable {c fresh : Catalog} {path name value text : String} {q r : Parameter}

/-- Whether there is a parameter that takes a value. -/
def TakesValue (c : Catalog) (path name value : String) : Prop :=
  ∃ q, c.parameter path name = .ok q ∧ q.Takes (q.valueList.bind c.lists.get?) value

theorem takesValue_iff :
    c.TakesValue path name value ↔ ∃ result, c.setParameter path name value = .ok result := by
  constructor
  · rintro ⟨q, hq, htakes⟩
    obtain ⟨new, hnew⟩ := Parameter.takes_iff.1 htakes
    exact setParameter_of_ok hq hnew
  · rintro ⟨⟨change, d⟩, h⟩
    obtain ⟨old, new, -, hold, hnew, -⟩ := setParameter_eq_ok h
    exact ⟨old, hold, Parameter.takes_iff.2 ⟨new, hnew⟩⟩

theorem not_takesValue_iff :
    ¬ fresh.TakesValue path name value ↔ (∀ r, fresh.parameter path name ≠ .ok r)
      ∨ ∃ r, fresh.parameter path name = .ok r
        ∧ ¬ r.Takes (r.valueList.bind fresh.lists.get?) value := by
  unfold TakesValue
  cases fresh.parameter path name with
  | error e => simp
  | ok r => simp

/-! ## Recorded parameters -/

/-- Whether a parameter is recorded with a state: it stands in the header of an enabled module, and does
not follow a module. -/
def Records (c : Catalog) (path : String) (q : Parameter) : Prop :=
  ∃ user m h, c.module? user = some m ∧ m.enabled = true ∧ m.configuration = some path
    ∧ c.headers.get? path = some h ∧ q ∈ h.params ∧ q.type ≠ .autoenabled

theorem Records.parameter (hq : c.Records path q) : c.parameter path q.name = .ok q := by
  obtain ⟨user, m, h, -, -, -, hh, hq, -⟩ := hq
  exact parameter_eq_ok_iff.2 ⟨h, hh, Header.get?_eq_some_iff.2 ⟨hq, rfl⟩⟩

/-! ## What is missing -/

/-- What is recorded with `c` and does not exist in `fresh`: parameters that it does not have, and
modules. -/
def Vanished (c fresh : Catalog) (text : String) : Prop :=
  (∃ path q, c.Records path q ∧ (∀ r, fresh.parameter path q.name ≠ .ok r)
      ∧ text = path ++ ":" ++ q.name)
    ∨ (c.isEnabled text = true ∧ fresh.isModule text = false)

/-- Parameters that are recorded with `c` and exist in `fresh`, where they do not take the value that is
recorded. -/
def Refused (c fresh : Catalog) (text : String) : Prop :=
  ∃ path q r, c.Records path q ∧ fresh.parameter path q.name = .ok r
    ∧ ¬ r.Takes (r.valueList.bind fresh.lists.get?) q.rendered ∧ text = path ++ ":" ++ q.name

/-- Whether each recorded parameter takes the value that is recorded for it. -/
def TakesOwn (c : Catalog) : Prop :=
  ∀ path q, c.Records path q → q.Takes (q.valueList.bind c.lists.get?) q.rendered

theorem not_vanished_of_declared (hdecl : c.declared = fresh.declared) : ¬ Vanished c fresh text := by
  rintro (⟨path, q, hq, hnone, -⟩ | ⟨hon, hnone⟩)
  · obtain ⟨r, hr, -⟩ := exists_parameter hdecl hq.parameter
    exact hnone r hr
  · rw [← isModule_congr hdecl, isModule_of_isEnabled hon] at hnone
    cases hnone

/-- Parameters of one tree take the same values. -/
theorem takes_of_declared (hdecl : c.declared = fresh.declared) (hq : c.Records path q)
    (hr : fresh.parameter path q.name = .ok r) :
    r.Takes (r.valueList.bind fresh.lists.get?) value
      ↔ q.Takes (q.valueList.bind c.lists.get?) value := by
  obtain ⟨r', hr', hrq⟩ := exists_parameter hdecl hq.parameter
  rw [hr, Except.ok.injEq] at hr'
  subst hr'
  have hlist : r.valueList = q.valueList := congrArg (·.valueList) hrq
  rw [hlist, ← lists_congr hdecl, Parameter.takes_congr hrq]

theorem takesOwn_iff (hdecl : c.declared = fresh.declared) :
    c.TakesOwn ↔ ∀ text, ¬ Refused c fresh text := by
  constructor
  · rintro htakes text ⟨path, q, r, hq, hr, hnot, -⟩
    exact hnot ((takes_of_declared hdecl hq hr).2 (htakes path q hq))
  · intro hnone path q hq
    obtain ⟨r, hr, -⟩ := exists_parameter hdecl hq.parameter
    by_contra hnot
    exact hnone _ ⟨path, q, r, hq, hr, mt (takes_of_declared hdecl hq hr).1 hnot, rfl⟩

end Catalog

/-! ## Restoring -/

namespace Project

open Catalog

variable {state : List String × Catalog} {c fresh : Catalog} {text : String}

/-- How a recorded parameter is reported. -/
def entryName (e : (String × String) × String) : String :=
  e.1.1 ++ ":" ++ e.1.2

/-- Restoring a value reports its parameter exactly if the value is not taken. -/
theorem mem_fst_restoreEntry {e : (String × String) × String} :
    text ∈ (restoreEntry state e).1
      ↔ text ∈ state.1 ∨ (¬ state.2.TakesValue e.1.1 e.1.2 e.2 ∧ text = entryName e) := by
  rw [takesValue_iff]
  unfold restoreEntry entryName
  rw [restoreValue_eq]
  cases state.2.setParameter e.1.1 e.1.2 e.2 with
  | ok result => simp
  | error rejection => simp

/-- Whether a value is taken does not depend on what other parameters were given. -/
theorem takesValue_restoreEntry (hidle : state.2.Idle) {e e' : (String × String) × String}
    (hne : e.1 ≠ e'.1) :
    (restoreEntry state e).2.TakesValue e'.1.1 e'.1.2 e'.2
      ↔ state.2.TakesValue e'.1.1 e'.1.2 e'.2 := by
  have hparameter : (restoreEntry state e).2.parameter e'.1.1 e'.1.2
      = state.2.parameter e'.1.1 e'.1.2 := parameter_restoreValue_of_ne hidle hne
  have hlists : (restoreEntry state e).2.lists = state.2.lists :=
    lists_congr (onlyValues_restoreValue hidle ..).declared
  rw [TakesValue, TakesValue, hparameter, hlists]

theorem mem_fst_foldl_restoreEntry (hidle : state.2.Idle)
    {es : List ((String × String) × String)} (hnodup : (es.map (·.1)).Nodup) :
    text ∈ (es.foldl restoreEntry state).1
      ↔ text ∈ state.1
        ∨ ∃ e ∈ es, ¬ state.2.TakesValue e.1.1 e.1.2 e.2 ∧ text = entryName e := by
  induction es generalizing state with
  | nil => simp
  | cons e es ih =>
      obtain ⟨hnot, hnodup⟩ := List.nodup_cons.1 hnodup
      have hone : OnlyValues state.2 (restoreEntry state e).2 := onlyValues_restoreValue hidle ..
      have hothers : (∃ e' ∈ es, ¬ (restoreEntry state e).2.TakesValue e'.1.1 e'.1.2 e'.2
            ∧ text = entryName e')
          ↔ ∃ e' ∈ es, ¬ state.2.TakesValue e'.1.1 e'.1.2 e'.2 ∧ text = entryName e' := by
        refine exists_congr fun e' => and_congr_right fun he' => and_congr_left' (not_congr ?_)
        exact takesValue_restoreEntry hidle fun heq => hnot (List.mem_map.2 ⟨e', he', heq.symm⟩)
      rw [List.foldl_cons, ih (hone.idle hidle) hnodup, hothers, mem_fst_restoreEntry, or_assoc,
        List.exists_mem_cons_iff]

/-- Restoring values reports the parameters whose recorded values are not taken. -/
theorem mem_fst_restoreValues (hidle : c.Idle) (p : Project) :
    text ∈ (p.restoreValues c).1
      ↔ ∃ e ∈ p.recorded, ¬ c.TakesValue e.1.1 e.1.2 e.2 ∧ text = entryName e := by
  have hstart : (([], c) : List String × Catalog).2.Idle := hidle
  rw [restoreValues_eq, mem_fst_foldl_restoreEntry hstart (nodup_recorded p)]
  simp

/-- Restoring a module reports it exactly if it is none. -/
theorem fst_restoreModule (p : Project) (state : List String × Catalog) (name : String) :
    (p.restoreModule state name).1
      = if state.2.isModule name then state.1 else addNew state.1 name := by
  rw [restoreModule_eq]
  cases hmod : state.2.isModule name with
  | true =>
      rw [select_of_isModule hmod]
      split <;> rfl
  | false =>
      have hoff : state.2.isEnabled name = false := by
        by_contra hon
        rw [isModule_of_isEnabled (by simpa using hon)] at hmod
        cases hmod
      rw [select_of_not_isModule hmod, hoff]
      rfl

theorem declared_restoreModule (p : Project) (state : List String × Catalog) (name : String) :
    (p.restoreModule state name).2.declared = state.2.declared := by
  rcases restoreModule_snd p state name with ⟨-, heq⟩ | ⟨-, -, heq⟩
  · rw [heq, declared_enable]
  · rw [heq]

/-- Restoring modules reports the names that are no modules, each once. -/
theorem fst_foldl_restoreModule (p : Project) (names : List String) :
    (names.foldl p.restoreModule state).1
      = (names.filter (!state.2.isModule ·)).foldl addNew state.1 := by
  induction names generalizing state with
  | nil => rfl
  | cons name names ih =>
      have hmodule := isModule_congr (declared_restoreModule p state name)
      rw [List.foldl_cons, ih, fst_restoreModule]
      simp only [hmodule]
      cases hmod : state.2.isModule name <;> simp [hmod]

theorem fst_applyTo (hidle : c.Idle) (p : Project) :
    (p.applyTo c).1
      = ((p.enabledModules ++ p.explicitModules).filter (!c.isModule ·)).foldl addNew
          (p.restoreValues c).1 := by
  rw [applyTo, fst_foldl_restoreModule]
  simp only [isModule_congr (onlyValues_restoreValues hidle p).declared]

/-! ## Restoring what was recorded -/

theorem mem_recorded_capture_iff (hc : c.IsBuilt) (p : Project) {path name value : String} :
    ((path, name), value) ∈ (p.capture c).recorded
      ↔ ∃ q, c.Records path q ∧ q.name = name ∧ q.rendered = value := by
  constructor
  · intro hmem
    obtain ⟨⟨path', values⟩, hentry, hmem⟩ := List.mem_flatMap.1 hmem
    obtain ⟨⟨name', value'⟩, hvalue, heq⟩ := List.mem_map.1 hmem
    cases heq
    obtain ⟨user, huser, hheader⟩ :=
      List.mem_filterMap.1 (NameMap.mem_of_get?_ofList (NameMap.get?_eq_some_iff.2 hentry))
    obtain ⟨m', hm', rfl⟩ := List.mem_map.1 huser
    obtain ⟨hm', hon⟩ := List.mem_filter.1 hm'
    obtain ⟨key, hkey⟩ := NameMap.mem_values_iff.1 hm'
    have hm : c.module? m'.name = some m' := by rwa [hc.name_eq hkey]
    obtain ⟨h, hh, heq⟩ := Option.map_eq_some_iff.1 hheader
    obtain ⟨rfl, rfl⟩ := Prod.mk.inj heq
    obtain ⟨path, hpath, hh⟩ := Option.bind_eq_some_iff.1 hh
    rw [hm, Option.bind_some] at hpath
    obtain ⟨q, hq, heq⟩ :=
      List.mem_map.1 (NameMap.mem_of_get?_ofList (NameMap.get?_eq_some_iff.2 hvalue))
    obtain ⟨hq, htype⟩ := List.mem_filter.1 hq
    obtain ⟨rfl, rfl⟩ := Prod.mk.inj heq
    rw [path_eq_of_isBuilt hc hh]
    exact ⟨q, ⟨_, m', h, hm, hon, hpath, hh, hq, by simpa using htype⟩, rfl, rfl⟩
  · rintro ⟨q, hrecords, rfl, rfl⟩
    have hq := hrecords.parameter
    obtain ⟨user, m, h, hm, hon, hpath, -, -, htype⟩ := hrecords
    exact mem_recorded_capture hc p ((owners_ne_nil_iff hc).2 ⟨user, m, hm, hon, hpath⟩) hq htype

/-- Restoring a recorded state reports what does not exist any more and what is refused. -/
theorem mem_missing_iff (hc : c.IsBuilt) (hco : c.Coherent) (hidle : fresh.Idle) (p : Project) :
    text ∈ ((p.capture c).applyTo fresh).1 ↔ Vanished c fresh text ∨ Refused c fresh text := by
  have hmodules : text ∈ ((p.capture c).enabledModules ++ (p.capture c).explicitModules).filter
      (!fresh.isModule ·) ↔ c.isEnabled text = true ∧ fresh.isModule text = false := by
    rw [List.mem_filter, mem_recordedModules hc hco, Bool.not_eq_true']
  have hvalues : text ∈ ((p.capture c).restoreValues fresh).1
      ↔ ∃ path q, c.Records path q ∧ ¬ fresh.TakesValue path q.name q.rendered
        ∧ text = path ++ ":" ++ q.name := by
    rw [mem_fst_restoreValues hidle]
    constructor
    · rintro ⟨⟨⟨path, name⟩, value⟩, hmem, hnot, rfl⟩
      obtain ⟨q, hq, rfl, rfl⟩ := (mem_recorded_capture_iff hc p).1 hmem
      exact ⟨path, q, hq, hnot, rfl⟩
    · rintro ⟨path, q, hq, hnot, rfl⟩
      exact ⟨((path, q.name), q.rendered), (mem_recorded_capture_iff hc p).2 ⟨q, hq, rfl, rfl⟩,
        hnot, rfl⟩
  rw [fst_applyTo hidle, mem_foldl_addNew, hmodules, hvalues]
  simp only [not_takesValue_iff]
  constructor
  · rintro (⟨path, q, hq, hnone | ⟨r, hr, hnot⟩, htext⟩ | hmodule)
    · exact .inl (.inl ⟨path, q, hq, hnone, htext⟩)
    · exact .inr ⟨path, q, r, hq, hr, hnot, htext⟩
    · exact .inl (.inr hmodule)
  · rintro ((⟨path, q, hq, hnone, htext⟩ | hmodule) | ⟨path, q, r, hq, hr, hnot, htext⟩)
    · exact .inl ⟨path, q, hq, .inl hnone, htext⟩
    · exact .inr hmodule
    · exact .inl ⟨path, q, hq, .inr ⟨r, hr, hnot⟩, htext⟩

/-- Whatever state was recorded, and whatever has become of the tree: restoring reports the recorded
parameters and modules that do not exist any more, and also the parameters that exist but do not take
the recorded value. So it only reports what does not exist if nothing else is refused; and where nothing
has changed, it reports nothing exactly if each parameter takes the value that was recorded for it. -/
theorem mem_applyTo_capture_iff (sourceRoot sourceRoot' : String) (modules modules' : List Module)
    (headers headers' : List Header) (lists lists' : List ValueList) (ops : List Operation)
    (copies : List (String × String)) (p : Project) :
    let c := (build sourceRoot modules headers lists).run ops
    let fresh := (build sourceRoot' modules' headers' lists').run
      (copies.map fun e => .applyUserConfiguration e.1 e.2)
    let missing := ((p.capture c).applyTo fresh).1
    (∀ text, text ∈ missing ↔ Vanished c fresh text ∨ Refused c fresh text)
      ∧ ((∀ text, text ∈ missing ↔ Vanished c fresh text)
        ↔ ∀ text, Refused c fresh text → Vanished c fresh text)
      ∧ (c.declared = fresh.declared → (missing = [] ↔ c.TakesOwn)) := by
  intro c fresh missing
  have hbuilt : c.IsBuilt := (isBuilt_build sourceRoot modules headers lists).run ops
  have hco : c.Coherent := coherent_run_build sourceRoot modules headers lists ops
  have hidle : fresh.Idle := idle_run_copies_build sourceRoot' modules' headers' lists' copies
  have hmissing : ∀ text, text ∈ missing ↔ Vanished c fresh text ∨ Refused c fresh text :=
    fun _ => mem_missing_iff hbuilt hco hidle p
  refine ⟨hmissing, ?_, fun hdecl => ?_⟩
  · simp only [hmissing, or_iff_left_iff_imp]
  · rw [List.eq_nil_iff_forall_not_mem, takesOwn_iff hdecl]
    refine forall_congr' fun text => not_congr ((hmissing text).trans ?_)
    exact or_iff_right (not_vanished_of_declared hdecl)

theorem headers_dmaTree_select : (dmaTree.run [.select "ser"]).headers = dmaTree.headers := by
  cbv

theorem records_dmaTree_iff {path : String} {q : Parameter} :
    (dmaTree.run [.select "ser"]).Records path q ↔ path = "cfg_ser.h" ∧ q = dmaFlag := by
  have hget : ∀ h, (dmaTree.run [.select "ser"]).headers.get? path = some h
      ↔ (path, h) = ("cfg_ser.h", ⟨"cfg_ser.h", [dmaFlag], by simp, ""⟩) := fun h => by
    rw [headers_dmaTree_select, NameMap.get?_eq_some_iff]
    exact List.mem_singleton
  constructor
  · rintro ⟨-, -, h, -, -, -, hh, hq, -⟩
    obtain ⟨rfl, rfl⟩ := Prod.mk.inj ((hget h).1 hh)
    exact ⟨rfl, List.mem_singleton.1 hq⟩
  · rintro ⟨rfl, rfl⟩
    exact ⟨"ser", { plainModule "ser" (some "cfg_ser.h") with enabled := true }, _, by cbv, rfl, rfl,
      (hget _).2 rfl, List.mem_singleton.2 rfl, by simp [dmaFlag]⟩

/-- The flag takes the value that is recorded for it, so nothing is missing where nothing has changed,
apart from a value that was taken over. Where the flag and the module that it requires are gone, both are
missing. -/
theorem mem_applyTo_capture_iff_dmaTree :
    let c := dmaTree.run [.select "ser"]
    let fresh := dmaTree.run ([("cfg_ser.h", "#define CONFIG_USE_DMA 0\n")].map fun e =>
      .applyUserConfiguration e.1 e.2)
    let less := build "" [plainModule "ser" none] [] []
    c.declared = fresh.declared ∧ (((default : Project).capture c).applyTo fresh).1 = []
      ∧ ∀ text ∈ ["cfg_ser.h:CONFIG_USE_DMA", "dma"],
        text ∈ (((default : Project).capture c).applyTo less).1 := by
  have hon : (dmaTree.run [.select "ser"]).isEnabled "dma" = true := by cbv
  intro c fresh less
  have hless : ∀ text, text ∈ (((default : Project).capture c).applyTo less).1
      ↔ c.Vanished less text ∨ c.Refused less text :=
    (mem_applyTo_capture_iff "" "" _ [plainModule "ser" none] _ [] [] [] [.select "ser"] [] default).1
  have hdecl : c.declared = fresh.declared := (declared_run _ _).trans (declared_run _ _).symm
  have htakes : c.TakesOwn := by
    intro path q hq
    obtain ⟨-, rfl⟩ := records_dmaTree_iff.1 hq
    exact ⟨"1", rfl⟩
  refine ⟨hdecl, ?_, fun text htext => (hless text).2 (.inl ?_)⟩
  · exact ((mem_applyTo_capture_iff "" "" _ _ _ _ [] [] _ _ default).2.2 hdecl).2 htakes
  · rcases List.mem_pair.1 htext with rfl | rfl
    · refine .inl ⟨"cfg_ser.h", dmaFlag, records_dmaTree_iff.2 ⟨rfl, rfl⟩, fun r hr => ?_, rfl⟩
      obtain ⟨h, hh, -⟩ := parameter_eq_ok_iff.1 hr
      cases hh
    · exact .inr ⟨hon, by cbv⟩

/-- A header with a port that is written as a macro. -/
def portHeader : Header :=
  ⟨"cfg_port.h", [{ flagOn "PORT" [] with type := .integer, value := "UART0" }], by simp, ""⟩

/-- A module that is bound to it. -/
def portTree : Catalog :=
  build "" [moduleOn "serial" [] (some "cfg_port.h")] [portHeader] []

/-- Restored in the tree itself, the port is reported as missing, although it exists. -/
theorem not_vanished_portTree :
    (((default : Project).capture (portTree.run [.select "serial"])).applyTo portTree).1
        = ["cfg_port.h:PORT"]
      ∧ ∀ text, ¬ Vanished (portTree.run [.select "serial"]) portTree text := by
  refine ⟨?_, fun _ => not_vanished_of_declared (declared_run _ _)⟩
  have hrecorded : ((default : Project).capture (portTree.run [.select "serial"])).recorded
      = [(("cfg_port.h", "PORT"), "UART0")] := by cbv
  have hmodules : (((default : Project).capture (portTree.run [.select "serial"])).enabledModules
      ++ ((default : Project).capture (portTree.run [.select "serial"])).explicitModules).filter
        (!portTree.isModule ·) = [] := by cbv
  have hrefused : portTree.setParameter "cfg_port.h" "PORT" "UART0"
      = .error (.invalidValue "PORT" "UART0" .notInteger) :=
    setParameter_of_error (parameter_eq_ok_iff.2 ⟨portHeader, by cbv, rfl⟩) (by decide +kernel)
  have hidle : portTree.Idle := fun name => isEnabled_build _ _ _ _ name
  rw [fst_applyTo hidle, hmodules, restoreValues_eq, hrecorded, List.foldl_nil, List.foldl_cons,
    List.foldl_nil, restoreEntry, restoreValue_eq, hrefused]
  rfl

end Project

end Configurator
