import Configurator.Project.Restore

/-!
# What updates leave

An update leaves what its steps leave in turn (`Update.runOn_bind`). The updates of a catalogue look at
all that can be wrong first, and take no step after that which can fail, so the catalogue is as it was
where one of them fails (`Update.ChecksFirst`).
-/

namespace Configurator

namespace Catalog.Update

variable {α β : Type} {c d : Catalog} {u : Update α} {next : α → Update β}

/-! ## Steps in turn -/

theorem runOn_bind (u : Update α) (next : α → Update β) (c : Catalog) :
    (u >>= next).runOn c =
      match u.runOn c with
      | (.ok a, d) => (next a).runOn d
      | (.error e, d) => (.error e, d) := by
  show StateT.run (ExceptT.run (u >>= next)) c = _
  simp only [ExceptT.run_bind, StateT.run_bind]
  cases h : StateT.run (ExceptT.run u) c with
  | mk result d => cases result <;> simp [runOn, h] <;> rfl

theorem outcome_get_bind (next : Catalog → Update β) (c : Catalog) :
    (get >>= next).outcome c = (next c).outcome c :=
  rfl

theorem outcome_modify_bind (f : Catalog → Catalog) (next : PUnit → Update β) (c : Catalog) :
    (modify f >>= next).outcome c = (next ⟨⟩).outcome (f c) :=
  rfl

theorem outcome_check_bind (r : Except Error α) (next : α → Update β) (c : Catalog) :
    (check r >>= next).outcome c = r >>= fun a => (next a).outcome c := by
  cases r <;> rfl

/-! ## Looking and changing -/

/-- Whether an update changes nothing. -/
def Looks (u : Update α) : Prop :=
  ∀ c, u.leaves c = c

/-- Whether an update gives a result, whatever it finds. -/
def Succeeds (u : Update α) : Prop :=
  ∀ c, ∃ a, (u.runOn c).1 = .ok a

/-- Whether an update that fails leaves the catalogue as it was. -/
def ChecksFirst (u : Update α) : Prop :=
  ∀ c e, (u.runOn c).1 = .error e → u.leaves c = c

theorem looks_get : Looks (get : Update Catalog) :=
  fun _ => rfl

theorem looks_throw (e : Error) : Looks (throw e : Update α) :=
  fun _ => rfl

theorem looks_check (r : Except Error α) : (check r).Looks := by
  cases r <;> exact fun _ => rfl

theorem Looks.discard (h : u.Looks) : (discard u).Looks := by
  intro c
  have hc := h c
  show ((u >>= fun _ => pure ()).runOn c).2 = c
  rw [leaves] at hc
  rw [runOn_bind]
  cases hrun : u.runOn c with
  | mk result d =>
      rw [hrun] at hc
      cases result <;> exact hc

theorem succeeds_pure (a : α) : Succeeds (pure a : Update α) :=
  fun _ => ⟨a, rfl⟩

theorem succeeds_get : Succeeds (get : Update Catalog) :=
  fun c => ⟨c, rfl⟩

theorem succeeds_modifyGet (f : Catalog → α × Catalog) : Succeeds (modifyGet f : Update α) :=
  fun c => ⟨(f c).1, rfl⟩

theorem succeeds_modify (f : Catalog → Catalog) : Succeeds (modify f : Update PUnit) :=
  succeeds_modifyGet _

theorem Succeeds.bind (h : u.Succeeds) (hnext : ∀ a, (next a).Succeeds) : (u >>= next).Succeeds := by
  intro c
  obtain ⟨a, ha⟩ := h c
  rw [runOn_bind]
  cases hrun : u.runOn c with
  | mk result d =>
      rw [hrun] at ha
      subst ha
      exact hnext a d

theorem Looks.checksFirst (h : u.Looks) : u.ChecksFirst :=
  fun c _ _ => h c

theorem Succeeds.checksFirst (h : u.Succeeds) : u.ChecksFirst := by
  intro c e he
  obtain ⟨a, ha⟩ := h c
  rw [ha] at he
  cases he

/-- What only looks may fail in front of what checks first. -/
theorem Looks.bind_checksFirst (h : u.Looks) (hnext : ∀ a, (next a).ChecksFirst) :
    (u >>= next).ChecksFirst := by
  intro c e he
  have hc := h c
  rw [leaves] at hc ⊢
  rw [runOn_bind] at he ⊢
  cases hrun : u.runOn c with
  | mk result d =>
      rw [hrun] at hc he
      subst hc
      cases result with
      | error _ => rfl
      | ok a => exact hnext a d e he

/-! ## Updates that fail -/

theorem leaves_of_ok {a : α} (h : u.outcome c = .ok (a, d)) : u.leaves c = d := by
  unfold outcome at h
  unfold leaves
  cases hrun : u.runOn c with
  | mk result _ =>
      rw [hrun] at h
      cases result <;> cases h
      rfl

/-- An update that checks first is known from what it gives. -/
theorem ChecksFirst.runOn_eq (h : u.ChecksFirst) (c : Catalog) :
    u.runOn c =
      match u.outcome c with
      | .ok (a, d) => (.ok a, d)
      | .error e => (.error e, c) := by
  have hfails := h c
  unfold leaves at hfails
  unfold outcome
  cases hrun : u.runOn c with
  | mk result d =>
      rw [hrun] at hfails
      cases result with
      | ok _ => rfl
      | error e => exact congrArg _ (hfails e rfl)

theorem ChecksFirst.leaves_of_error (h : u.ChecksFirst) {e : Error} (he : u.outcome c = .error e) :
    u.leaves c = c := by
  rw [leaves, h.runOn_eq, he]

/-- What holds of the catalogue, and of the one that an update gives, holds of the one that it leaves. -/
theorem ChecksFirst.leaves_induction {P : Catalog → Prop} (h : u.ChecksFirst) (hc : P c)
    (hok : ∀ a d, u.outcome c = .ok (a, d) → P d) : P (u.leaves c) := by
  cases hu : u.outcome c with
  | error e => rwa [h.leaves_of_error hu]
  | ok result => exact leaves_of_ok hu ▸ hok result.1 result.2 hu

/-! ## The updates of a catalogue -/

theorem checksFirst_select (name : String) : (select name).ChecksFirst := by
  refine looks_get.bind_checksFirst fun c => (looks_check _).discard.bind_checksFirst fun _ => ?_
  -- the module is there, and all that follows succeeds
  refine Succeeds.checksFirst <| (succeeds_modify _).bind fun _ => (succeeds_modify _).bind fun _ => ?_
  exact (succeeds_modifyGet _).bind fun _ => succeeds_pure _

theorem checksFirst_unselect (name : String) : (unselect name).ChecksFirst := by
  refine looks_get.bind_checksFirst fun c => (looks_check _).discard.bind_checksFirst fun _ => ?_
  exact (succeeds_modifyGet _).checksFirst

theorem checksFirst_setParameter (configuration name value : String) :
    (setParameter configuration name value).ChecksFirst := by
  refine looks_get.bind_checksFirst fun c => (looks_check _).bind_checksFirst fun old => ?_
  refine looks_get.bind_checksFirst fun _ => ?_
  dsimp only
  split
  · exact (looks_throw _).checksFirst
  · -- the value is accepted, and all that follows succeeds
    refine Succeeds.checksFirst <| (succeeds_modify _).bind fun _ => succeeds_get.bind fun _ => ?_
    split
    · exact succeeds_pure _
    · refine (succeeds_modify _).bind fun _ => ?_
      split
      · exact (succeeds_modifyGet _).bind fun _ => succeeds_pure _
      · exact succeeds_get.bind fun _ => succeeds_pure _

theorem checksFirst_applyUserConfiguration (configuration text : String) :
    (applyUserConfiguration configuration text).ChecksFirst := by
  refine (looks_check _).bind_checksFirst fun copy => looks_get.bind_checksFirst fun c => ?_
  split
  · exact (looks_throw _).checksFirst
  · exact Succeeds.checksFirst <| (succeeds_modify _).bind fun _ => succeeds_pure _

end Catalog.Update

/-! ## Going on after a failure -/

open Catalog (Update)

theorem Catalog.applyUserConfiguration_eq (c : Catalog) (configuration text : String) :
    c.applyUserConfiguration configuration text =
      match Header.parse configuration text with
      | .error e => .error (.configurationDefinition configuration e)
      | .ok copy =>
        match c.headers.get? configuration with
        | none => .error (.unknownConfiguration configuration)
        | some h => .ok (h.mergeCount copy, c.modifyHeader configuration (·.merge copy)) := by
  rw [applyUserConfiguration, Update.applyUserConfiguration, Update.outcome_check_bind]
  cases Header.parse configuration text with
  | error e => rfl
  | ok copy =>
      show Update.outcome (get >>= _) c = _
      rw [Update.outcome_get_bind]
      cases c.headers.get? configuration <;> rfl

namespace Project

theorem restoreValue_eq (state : List String × Catalog) (path name value : String) :
    restoreValue state path name value =
      match state.2.setParameter path name value with
      | .ok (_, c) => (state.1, c)
      | .error _ => (state.1 ++ [path ++ ":" ++ name], state.2) := by
  rw [restoreValue, (Update.checksFirst_setParameter path name value).runOn_eq, Catalog.setParameter]
  cases (Update.setParameter path name value).outcome state.2 <;> rfl

theorem restoreModule_eq (p : Project) (state : List String × Catalog) (name : String) :
    p.restoreModule state name =
      if state.2.isEnabled name && name ∉ p.askedFor then state
      else
        match state.2.select name with
        | .ok (_, c) => (state.1, c)
        | .error _ => (Catalog.addNew state.1 name, state.2) := by
  rw [restoreModule, (Update.checksFirst_select name).runOn_eq, Catalog.select]
  cases (Update.select name).outcome state.2 <;> rfl

theorem checksFirst_takeCopy (tree : FileTree) (configDir path : String) :
    (takeCopy tree configDir path).ChecksFirst := by
  unfold takeCopy
  split
  · exact (Update.succeeds_pure _).checksFirst
  · dsimp only
    split
    · exact (Update.looks_check _).bind_checksFirst
        fun text => Update.checksFirst_applyUserConfiguration path text
    · exact (Update.succeeds_pure _).checksFirst

/-- What was taken over before a copy that cannot be read stays. -/
theorem mergeHeaders_cons (tree : FileTree) (configDir : String) (c : Catalog) (path : String)
    (paths : List String) :
    mergeHeaders tree configDir c (path :: paths) =
      match mergeHeader tree configDir c path with
      | .error e => (.error e, c)
      | .ok (merged, d) =>
        (mergeHeaders tree configDir d paths).map (·.map (merged + ·)) id := by
  rw [mergeHeaders, takeCopies, Update.runOn_bind, (checksFirst_takeCopy tree configDir path).runOn_eq,
    mergeHeader]
  cases (takeCopy tree configDir path).outcome c with
  | error e => rfl
  | ok merged =>
      dsimp only
      rw [Update.runOn_bind, mergeHeaders]
      cases (takeCopies tree configDir paths).runOn merged.2 with
      | mk others d => cases others <;> rfl

end Project

end Configurator
