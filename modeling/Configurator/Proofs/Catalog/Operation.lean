import Configurator.Proofs.Catalog.Declared
import Configurator.Proofs.Catalog.Updating
import Configurator.Proofs.Outcome

/-!
# Operations and runs

What a caller can do to a catalogue, as data. An operation that fails leaves the catalogue as it was,
because all that can be wrong is looked at before anything changes (`Update.ChecksFirst`); a run is any
number of operations in turn, whether they fail or not. The larger operations are made of three:
selecting a module, withdrawing one, and giving a parameter a value. The lemmas here say what each of
these does in one equation, and that a property which they keep is kept by the operations made of them.
-/

namespace Configurator

/-- What can be done to a catalogue. -/
inductive Operation where
  | select (name : String)
  | unselect (name : String)
  | release (names : List String)
  | setParameter (configuration name value : String)
  | zeroParameter (r : ParamRef)
  | syncAutoenabled
  | applyUserConfiguration (configuration text : String)
  | applyTo (p : Project)

/-- Whether an operation edits one selection, unlike those that take a whole state over. -/
def Operation.isEdit : Operation → Bool
  | .select _ | .unselect _ | .release _ | .setParameter .. | .zeroParameter _ => true
  | .syncAutoenabled | .applyUserConfiguration .. | .applyTo _ => false

namespace Catalog

variable {c d : Catalog}

/-! ## Runs -/

/-- The catalogue after an operation. -/
def step (c : Catalog) : Operation → Catalog
  | .select name => (Update.select name).leaves c
  | .unselect name => (Update.unselect name).leaves c
  | .release names => (c.release names).2
  | .setParameter configuration name value =>
      (Update.setParameter configuration name value).leaves c
  | .zeroParameter r => (Update.zeroParameter r).leaves c
  | .syncAutoenabled => c.syncAutoenabled.2
  | .applyUserConfiguration configuration text =>
      (Update.applyUserConfiguration configuration text).leaves c
  | .applyTo p => (p.applyTo c).2

/-- The catalogue after some operations. -/
def run (c : Catalog) (ops : List Operation) : Catalog :=
  ops.foldl step c

/-- What every step keeps holds after every run. -/
theorem run_induction {P : Catalog → Prop} (ops : List Operation)
    (hstep : ∀ c, ∀ op ∈ ops, P c → P (c.step op)) (hc : P c) : P (c.run ops) := by
  induction ops generalizing c with
  | nil => exact hc
  | cons op ops ih =>
      exact ih (fun c o ho => hstep c o (List.mem_cons_of_mem _ ho))
        (hstep c op List.mem_cons_self hc)

/-! ## Selecting -/

/-- The catalogue with a name among those that were asked for. -/
def askFor (c : Catalog) (name : String) : Catalog :=
  { c with explicit := c.explicit.insert name }

/-- Asks for a module and enables it with all that it needs, and names what was needed. -/
def enable (c : Catalog) (name : String) : Catalog × List String :=
  let c := (c.askFor name).switchOn name
  c.pull (c.effectiveDeps name)

theorem requireModule_of_isModule {name : String} (h : c.isModule name = true) :
    ∃ m, c.requireModule name = .ok m := by
  obtain ⟨m, hm⟩ := isModule_iff.1 h
  exact ⟨m, by rw [requireModule, hm]⟩

theorem requireModule_of_not_isModule {name : String} (h : c.isModule name = false) :
    c.requireModule name = .error (.unknownModule name) := by
  have hm : c.module? name = none := by simpa [isModule, NameMap.contains, module?] using h
  rw [requireModule, hm]

theorem select_of_isModule {name : String} (h : c.isModule name = true) :
    c.select name = .ok (⟨name, (c.enable name).2⟩, (c.enable name).1) := by
  obtain ⟨m, hm⟩ := requireModule_of_isModule h
  rw [select, Update.select, Update.outcome_get_bind, hm]
  rfl

theorem select_of_not_isModule {name : String} (h : c.isModule name = false) :
    c.select name = .error (.unknownModule name) := by
  rw [select, Update.select, Update.outcome_get_bind, requireModule_of_not_isModule h]
  rfl

theorem select_eq_ok {name : String} {o : Selected} (h : c.select name = .ok (o, d)) :
    c.isModule name = true ∧ o = ⟨name, (c.enable name).2⟩ ∧ d = (c.enable name).1 := by
  cases hmod : c.isModule name with
  | false => simp [select_of_not_isModule hmod] at h
  | true =>
      rw [select_of_isModule hmod] at h
      simp only [Except.ok.injEq, Prod.mk.injEq] at h
      exact ⟨rfl, h.1.symm, h.2.symm⟩

/-! ## Withdrawing -/

theorem unselect_of_isModule {name : String} (h : c.isModule name = true) :
    c.unselect name = .ok (c.withdraw name) := by
  obtain ⟨m, hm⟩ := requireModule_of_isModule h
  rw [unselect, Update.unselect, Update.outcome_get_bind, hm]
  rfl

theorem unselect_of_not_isModule {name : String} (h : c.isModule name = false) :
    c.unselect name = .error (.unknownModule name) := by
  rw [unselect, Update.unselect, Update.outcome_get_bind, requireModule_of_not_isModule h]
  rfl

theorem unselect_eq_ok {name : String} {o : Unselected} (h : c.unselect name = .ok (o, d)) :
    c.isModule name = true ∧ o = (c.withdraw name).1 ∧ d = (c.withdraw name).2 := by
  cases hmod : c.isModule name with
  | false => simp [unselect_of_not_isModule hmod] at h
  | true =>
      rw [unselect_of_isModule hmod, Except.ok.injEq] at h
      exact ⟨rfl, congrArg Prod.fst h.symm, congrArg Prod.snd h.symm⟩

theorem withdraw_snd (c : Catalog) (name : String) :
    (c.withdraw name).2 = ((c.switchOff name).cascade ((c.switchOff name).hardDependents name)).1 :=
  rfl

theorem isModule_of_isEnabled {name : String} (h : c.isEnabled name = true) :
    c.isModule name = true := by
  obtain ⟨m, hm, -⟩ := isEnabled_iff.1 h
  exact isModule_iff.2 ⟨m, hm⟩

/-- What withdrawing a module keeps is kept by releasing any. -/
theorem release_induction {P : Catalog → Prop}
    (hwithdraw : ∀ c name, c.isModule name = true → P c → P (c.withdraw name).2)
    (names : List String) (hc : P c) : P (c.release names).2 := by
  induction names generalizing c with
  | nil => exact hc
  | cons name names ih =>
      rw [release]
      split
      · next he => exact ih (hwithdraw c name (isModule_of_isEnabled he) hc)
      · exact ih hc

/-! ## Giving parameters values -/

/-- Whether nothing follows from a new value, in the catalogue that has it: the parameter requires
nothing, no enabled module is bound to its header, or it is set or not as before. -/
def IsQuiet (c : Catalog) (configuration : String) (old new : Parameter) : Prop :=
  old.type ≠ .boolean ∨ old.conditionalDeps = [] ∨ c.owners configuration = []
    ∨ old.isSet = new.isSet

/-- What is reported once a parameter has taken a value, and the catalogue with all that follows. -/
def assigned (c : Catalog) (configuration name : String) (old new : Parameter) : Change × Catalog :=
  let e := c.withParameter configuration name new
  let change : Change := ⟨configuration, name, old.value, new.value, [], []⟩
  if old.type ≠ .boolean ∨ old.conditionalDeps = [] ∨ e.owners configuration = []
      ∨ old.isSet = new.isSet then
    (change, e)
  else
    let refreshed := e.refreshAll (e.owners configuration)
    if new.isSet then
      let pulled := refreshed.pull old.conditionalDeps
      ({ change with enabled := pulled.2 }, pulled.1)
    else
      let released := old.conditionalDeps.filter fun dep =>
        refreshed.isEnabled dep && !refreshed.isExplicit dep && !refreshed.isRequired dep []
      ({ change with released }, refreshed)

theorem setParameter_eq (c : Catalog) (configuration name value : String) :
    c.setParameter configuration name value = (do
      let old ← c.parameter configuration name
      match old.accept (old.valueList.bind c.lists.get?) value with
      | .error rejection => .error (.invalidValue name value rejection)
      | .ok new => .ok (c.assigned configuration name old new)) := by
  rw [setParameter, Update.setParameter, Update.outcome_get_bind, Update.outcome_check_bind]
  refine congrArg _ (funext fun old => ?_)
  rw [Update.outcome_get_bind]
  dsimp only
  cases old.accept (old.valueList.bind c.lists.get?) value with
  | error rejection => rfl
  | ok new =>
      rw [Update.outcome_modify_bind, Update.outcome_get_bind]
      unfold assigned
      dsimp only
      by_cases hquiet : old.type ≠ .boolean ∨ old.conditionalDeps = []
          ∨ (c.withParameter configuration name new).owners configuration = [] ∨ old.isSet = new.isSet
      · rw [if_pos hquiet, if_pos hquiet]
        rfl
      · rw [if_neg hquiet, if_neg hquiet, Update.outcome_modify_bind]
        cases new.isSet <;> rfl

/-- All that giving a parameter a value can do and report: the value is taken, and then either nothing
follows, or the bare files of the enabled owners are refreshed. What the parameter requires is enabled
then if it is set now, and looked through for what is not needed any more if it is not. -/
theorem setParameter_change {configuration name value : String} {change : Change}
    (h : c.setParameter configuration name value = .ok (change, d)) :
    ∃ old new e refreshed, c.parameter configuration name = .ok old
      ∧ old.accept (old.valueList.bind c.lists.get?) value = .ok new
      ∧ e = c.withParameter configuration name new
      ∧ refreshed = e.refreshAll (e.owners configuration)
      ∧ ((e.IsQuiet configuration old new ∧ d = e
          ∧ change = ⟨configuration, name, old.value, new.value, [], []⟩)
        ∨ (¬ e.IsQuiet configuration old new ∧ new.isSet = true
          ∧ d = (refreshed.pull old.conditionalDeps).1
          ∧ change = ⟨configuration, name, old.value, new.value,
            (refreshed.pull old.conditionalDeps).2, []⟩)
        ∨ (¬ e.IsQuiet configuration old new ∧ new.isSet = false ∧ d = refreshed
          ∧ change = ⟨configuration, name, old.value, new.value, [],
            old.conditionalDeps.filter fun dep =>
              d.isEnabled dep && !d.isExplicit dep && !d.isRequired dep []⟩)) := by
  rw [setParameter_eq] at h
  obtain ⟨old, hold, h⟩ := Outcome.bind_eq_ok_iff.1 h
  split at h
  · cases h
  · next new hnew =>
    refine ⟨old, new, _, _, hold, hnew, rfl, rfl, ?_⟩
    unfold assigned at h
    dsimp only at h
    split at h
    · next hquiet =>
      cases h
      exact .inl ⟨hquiet, rfl, rfl⟩
    · next hloud =>
      split at h
      · next hset =>
        cases h
        exact .inr (.inl ⟨hloud, hset, rfl, rfl⟩)
      · next hset =>
        cases h
        exact .inr (.inr ⟨hloud, by simpa using hset, rfl, rfl⟩)

/-- What giving a parameter a value can do, its report aside. -/
theorem setParameter_eq_ok {configuration name value : String} {change : Change}
    (h : c.setParameter configuration name value = .ok (change, d)) :
    ∃ old new e, c.parameter configuration name = .ok old
      ∧ old.accept (old.valueList.bind c.lists.get?) value = .ok new
      ∧ e = c.withParameter configuration name new
      ∧ ((e.IsQuiet configuration old new ∧ d = e)
        ∨ (¬ e.IsQuiet configuration old new ∧ new.isSet = true
          ∧ d = ((e.refreshAll (e.owners configuration)).pull old.conditionalDeps).1)
        ∨ (¬ e.IsQuiet configuration old new ∧ new.isSet = false
          ∧ d = e.refreshAll (e.owners configuration))) := by
  obtain ⟨old, new, e, refreshed, hold, hnew, he, rfl, hcases⟩ := setParameter_change h
  refine ⟨old, new, e, hold, hnew, he, hcases.imp ?_ (Or.imp ?_ ?_)⟩
  · rintro ⟨hquiet, hd, -⟩
    exact ⟨hquiet, hd⟩
  · rintro ⟨hloud, hset, hd, -⟩
    exact ⟨hloud, hset, hd⟩
  · rintro ⟨hloud, hset, hd, -⟩
    exact ⟨hloud, hset, hd⟩

/-- Nothing follows from a new value of a parameter that is no flag. -/
theorem setParameter_of_type_ne_boolean {configuration name value : String} {old new : Parameter}
    (hold : c.parameter configuration name = .ok old)
    (hnew : old.accept (old.valueList.bind c.lists.get?) value = .ok new)
    (htype : old.type ≠ .boolean) :
    c.setParameter configuration name value
      = .ok (⟨configuration, name, old.value, new.value, [], []⟩,
        c.withParameter configuration name new) := by
  rw [setParameter_eq, hold]
  simp only [bind, Except.bind, hnew]
  rw [assigned, if_pos (.inl htype)]

/-- What is kept where parameters of one header show the state of a module is kept where those of every
header do. -/
theorem syncAutoenabled_induction {P : Catalog → Prop}
    (hshow : ∀ d path value, P d → P (d.modifyHeader path (withAutoenabled value))) (hc : P c) :
    P c.syncAutoenabled.2 := by
  refine List.foldlRecOn (motive := fun state : Nat × Catalog => P state.2) _ _ hc
    fun state hstate m _ => ?_
  unfold syncModule
  dsimp only
  split
  · exact hstate
  · exact hshow _ _ _ hstate

theorem applyUserConfiguration_eq_ok {configuration text : String} {merged : Nat}
    (h : c.applyUserConfiguration configuration text = .ok (merged, d)) :
    ∃ copy, Header.parse configuration text = .ok copy
      ∧ d = c.modifyHeader configuration (·.merge copy) := by
  rw [applyUserConfiguration_eq] at h
  split at h
  · cases h
  · next copy hcopy =>
    refine ⟨copy, hcopy, ?_⟩
    split at h <;> cases h
    rfl

/-! ## Steps -/

section

variable {P : Catalog → Prop} {name configuration value text : String}

theorem step_select (h : c.isModule name = true) : c.step (.select name) = (c.enable name).1 :=
  Update.leaves_of_ok (select_of_isModule h)

theorem step_unselect (h : c.isModule name = true) : c.step (.unselect name) = (c.withdraw name).2 :=
  Update.leaves_of_ok (unselect_of_isModule h)

theorem step_select_induction (hc : P c) (henable : c.isModule name = true → P (c.enable name).1) :
    P (c.step (.select name)) := by
  refine (Update.checksFirst_select name).leaves_induction hc fun o d h => ?_
  obtain ⟨hname, -, rfl⟩ := select_eq_ok h
  exact henable hname

theorem step_unselect_induction (hc : P c)
    (hwithdraw : c.isModule name = true → P (c.withdraw name).2) : P (c.step (.unselect name)) := by
  refine (Update.checksFirst_unselect name).leaves_induction hc fun o d h => ?_
  obtain ⟨hname, -, rfl⟩ := unselect_eq_ok h
  exact hwithdraw hname

theorem step_setParameter_induction (hc : P c)
    (hset : ∀ change d, c.setParameter configuration name value = .ok (change, d) → P d) :
    P (c.step (.setParameter configuration name value)) :=
  (Update.checksFirst_setParameter _ _ _).leaves_induction hc hset

theorem step_applyUserConfiguration_induction (hc : P c)
    (hmerge : ∀ copy, Header.parse configuration text = .ok copy →
      P (c.modifyHeader configuration (·.merge copy))) :
    P (c.step (.applyUserConfiguration configuration text)) := by
  refine (Update.checksFirst_applyUserConfiguration _ _).leaves_induction hc fun o d h => ?_
  obtain ⟨copy, hcopy, rfl⟩ := applyUserConfiguration_eq_ok h
  exact hmerge copy hcopy

end

/-- What the single steps of restoring a project keep is kept by restoring it. -/
theorem applyTo_induction {P : Catalog → Prop}
    (hset : ∀ c configuration name value o d, P c →
      c.setParameter configuration name value = .ok (o, d) → P d)
    (hselect : ∀ c name o d, P c → c.select name = .ok (o, d) → P d)
    (hretain : ∀ c names, P c → P (Project.retainExplicit c names))
    (p : Project) (hc : P c) : P (p.applyTo c).2 := by
  have hvalue : ∀ state path name value, P state.2 →
      P (Project.restoreValue state path name value).2 := by
    intro state path name value hstate
    rw [Project.restoreValue_eq]
    split
    · next o d hok => exact hset _ _ _ _ _ _ hstate hok
    · exact hstate
  have hvalues : P (p.restoreValues c).2 := by
    refine List.foldlRecOn (motive := fun state : List String × Catalog => P state.2) _ _ hc
      fun state hstate e _ => ?_
    exact List.foldlRecOn (motive := fun state : List String × Catalog => P state.2) _ _ hstate
      fun state hstate e _ => hvalue state _ _ _ hstate
  refine hretain _ _ ?_
  refine List.foldlRecOn (motive := fun state : List String × Catalog => P state.2) _ _ hvalues
    fun state hstate name _ => ?_
  rw [Project.restoreModule_eq]
  split
  · exact hstate
  · split
    · next o d hok => exact hselect _ _ _ _ hstate hok
    · exact hstate

/-- What the single steps keep is kept by an operation. -/
theorem step_induction {P : Catalog → Prop}
    (hask : ∀ c explicit, P c → P { c with explicit })
    (hon : ∀ c name, P c → P (c.switchOn name))
    (hoff : ∀ c name, P c → P (c.switchOff name))
    (hset : ∀ c configuration name value o d, P c →
      c.setParameter configuration name value = .ok (o, d) → P d)
    (hsync : ∀ c, P c → P c.syncAutoenabled.2)
    {op : Operation} (hcopy : ∀ configuration text, op = .applyUserConfiguration configuration text →
      P (c.step op))
    (hc : P c) : P (c.step op) := by
  have hselect : ∀ c name o d, P c → c.select name = .ok (o, d) → P d := by
    intro c name o d hc h
    obtain ⟨-, -, rfl⟩ := select_eq_ok h
    exact pull_induction hon _ (hon _ name (hask c _ hc))
  have hwithdraw : ∀ c name, P c → P (c.withdraw name).2 :=
    fun c name hc => cascade_induction hoff _ (hoff c name hc)
  cases op with
  | select name =>
      exact step_select_induction hc fun hname => hselect c name _ _ hc (select_of_isModule hname)
  | unselect name => exact step_unselect_induction hc fun _ => hwithdraw c name hc
  | release names => exact release_induction (fun d name _ hd => hwithdraw d name hd) names hc
  | setParameter configuration name value =>
      exact step_setParameter_induction hc fun o d h => hset c _ _ _ o d hc h
  | zeroParameter r => exact step_setParameter_induction hc fun o d h => hset c _ _ _ o d hc h
  | syncAutoenabled => exact hsync c hc
  | applyUserConfiguration configuration text => exact hcopy configuration text rfl
  | applyTo p => exact applyTo_induction hset hselect (fun d names hd => hask d _ hd) p hc

/-! ## The declared part -/

theorem declared_withParameter {configuration name : String} {p q : Parameter}
    (hp : c.parameter configuration name = .ok p) (hq : q.declared = p.declared) :
    (c.withParameter configuration name q).declared = c.declared := by
  refine declared_modifyHeader ?_
  intro h hh
  refine Header.declared_mapParams ?_
  intro r hr
  split
  · next hname =>
    have hget : h.get? name = some r := Header.get?_eq_some_iff.2 ⟨hr, hname⟩
    simp only [parameter, hh, hget, Except.ok.injEq] at hp
    rw [hq, hp]
  · rfl

theorem declared_enable (c : Catalog) (name : String) :
    (c.enable name).1.declared = c.declared := by
  rw [enable, declared_pull, declared_switchOn]
  rfl

theorem declared_withdraw (c : Catalog) (name : String) :
    (c.withdraw name).2.declared = c.declared := by
  rw [withdraw_snd, declared_cascade, declared_switchOff]

theorem declared_setParameter {configuration name value : String} {change : Change}
    (h : c.setParameter configuration name value = .ok (change, d)) : d.declared = c.declared := by
  obtain ⟨old, new, e, hold, hnew, rfl, hd⟩ := setParameter_eq_ok h
  have hkeep := declared_withParameter hold (Parameter.declared_accept hnew)
  rcases hd with ⟨-, rfl⟩ | ⟨-, -, rfl⟩ | ⟨-, -, rfl⟩
  · exact hkeep
  · rw [declared_pull, declared_refreshAll, hkeep]
  · rw [declared_refreshAll, hkeep]

theorem declared_syncAutoenabled (c : Catalog) : c.syncAutoenabled.2.declared = c.declared := by
  refine syncAutoenabled_induction (P := fun d => d.declared = c.declared) (fun d _ _ hd => ?_) rfl
  refine (declared_modifyHeader fun h _ => ?_).trans hd
  refine Header.declared_mapParams fun p _ => ?_
  split <;> rfl

theorem declared_merge (h copy : Header) : (h.merge copy).declared = h.declared := by
  refine Header.declared_mapParams ?_
  intro p _
  split
  · exact Parameter.declared_takeValue p _
  · rfl

/-- No operation changes the declared part. -/
theorem declared_step (c : Catalog) (op : Operation) : (c.step op).declared = c.declared := by
  cases op with
  | select name =>
      exact step_select_induction (P := fun d => d.declared = c.declared) rfl
        fun _ => declared_enable c name
  | unselect name =>
      exact step_unselect_induction (P := fun d => d.declared = c.declared) rfl
        fun _ => declared_withdraw c name
  | release names =>
      refine release_induction (P := fun d => d.declared = c.declared) ?_ names rfl
      intro d name _ hd
      rw [declared_withdraw, hd]
  | setParameter configuration name value =>
      exact step_setParameter_induction (P := fun d => d.declared = c.declared) rfl
        fun _ _ => declared_setParameter
  | zeroParameter r =>
      exact step_setParameter_induction (P := fun d => d.declared = c.declared) rfl
        fun _ _ => declared_setParameter
  | syncAutoenabled => exact declared_syncAutoenabled c
  | applyUserConfiguration configuration text =>
      exact step_applyUserConfiguration_induction (P := fun d => d.declared = c.declared) rfl
        fun copy _ => declared_modifyHeader fun k _ => declared_merge k copy
  | applyTo p =>
      refine applyTo_induction (P := fun d => d.declared = c.declared) ?_ ?_ ?_ p rfl
      · intro d configuration name value o e hd h
        rw [declared_setParameter h, hd]
      · intro d name o e hd h
        obtain ⟨-, -, rfl⟩ := select_eq_ok h
        rw [declared_enable, hd]
      · intro d names hd
        exact hd

theorem declared_run (c : Catalog) (ops : List Operation) : (c.run ops).declared = c.declared :=
  run_induction (P := fun d => d.declared = c.declared) ops
    (fun d op _ hd => (declared_step d op).trans hd) rfl

end Catalog

end Configurator
