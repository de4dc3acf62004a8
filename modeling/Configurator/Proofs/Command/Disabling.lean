import Configurator.Command.Editing
import Configurator.Proofs.Catalog.Change
import Configurator.Proofs.Catalog.Releasing
import Configurator.Proofs.Catalog.Repair
import Configurator.Proofs.Command.Running
import Configurator.Proofs.Command.Session

/-!
# Disabling with all that follows

With every question answered, disabling a module unselects it, turns off the settings that still
require something that is gone, and releases a list of modules that nothing needs any more. The list is
made of two reports: the orphans from before settings are turned off, and what turning off leaves
without users. All users of what is listed are listed (`Settled.hasUsersOf`), so that releasing the list
disables it and nothing else, and leaves a closed catalogue. A module that has lost all its users is on
the list (`Settled.mem_unusedOf_of_useless`): it is an orphan if a removed module was the last of them,
and otherwise the last one lost its flag.

What only listed modules need is not looked for, and what the releases report about it is dropped. So
something is left behind exactly where the list does not take in what its members alone need, which it
does if no setting had to be turned off, or where an orphan that a release reports is still enabled
(`disable_spec`).
-/

namespace Configurator

namespace Catalog

variable {c d e : Catalog} {r : ParamRef} {rs : List ParamRef} {released : List String}

/-! ## Settings that are turned off -/

/-- What turning off some flags leaves of a catalogue, with what that was reported to release. -/
structure TurnedOff (c : Catalog) (rs : List ParamRef) (released : List String) (d : Catalog) :
    Prop where
  cleared : c.Cleared rs d
  explicit : d.explicit = c.explicit
  useless : ∀ dep ∈ released, ∀ user, d.isEnabled user = true → dep ∉ d.effectiveDeps user
  mem_released : ∀ dep, d.Useless dep →
    (∃ user, c.isEnabled user = true ∧ dep ∈ c.effectiveDeps user) → dep ∈ released

theorem TurnedOff.refl (c : Catalog) : c.TurnedOff [] [] c where
  cleared := .refl c
  explicit := rfl
  useless := by simp
  mem_released dep h hused := by
    obtain ⟨user, huser, hdep⟩ := hused
    exact absurd hdep (h.2.2 user huser)

/-- One more flag can be turned off. What depended on a module until then did so through this flag, and
its report tells of that. -/
theorem TurnedOff.zeroParameter (h : c.TurnedOff rs released d) (hbuilt : c.IsBuilt)
    (hflag : c.IsFlag r) :
    ∃ change e, d.zeroParameter r = .ok (change, e)
      ∧ c.TurnedOff (rs ++ [r]) (released ++ change.released) e := by
  obtain ⟨change, e, hzero, hcleared⟩ := h.cleared.zeroParameter hflag
  obtain ⟨change', e', hzero', hstep⟩ := (Cleared.refl d).zeroParameter (h.cleared.isFlag hflag)
  obtain ⟨rfl, rfl⟩ : change = change' ∧ e = e' := by
    rw [hzero, Except.ok.injEq] at hzero'
    exact Prod.mk.inj hzero'
  obtain ⟨old, new, hchanges⟩ := changes_setParameter (hbuilt.congr h.cleared.declared) hzero
  refine ⟨change, e, hzero, hcleared, hchanges.explicit.trans h.explicit,
    fun dep hdep user huser huses => ?_, fun dep huseless hused => ?_⟩
  · rcases List.mem_append.1 hdep with hdep | hdep
    · rw [hstep.isEnabled] at huser
      exact h.useless dep hdep user huser (hstep.mem_effectiveDeps huses)
    · exact ((hchanges.mem_released dep).1 hdep).2.2.2.2 user huser huses
  -- Either this flag took the last user away, or an earlier one did and had told of it.
  · by_cases hbefore : ∃ user, d.isEnabled user = true ∧ dep ∈ d.effectiveDeps user
    · obtain ⟨user, huser, huses⟩ := hbefore
      have hgone := huseless.2.2 user (hchanges.keeps user huser)
      obtain ⟨hoff, hrequired⟩ := hchanges.turnsOff huser huses hgone
      exact List.mem_append_right _ ((hchanges.mem_released dep).2 ⟨hoff, hrequired, huseless⟩)
    · obtain ⟨hon, hnot, -⟩ := huseless
      rw [hstep.isEnabled] at hon
      rw [hchanges.explicit] at hnot
      refine List.mem_append_left _ (h.mem_released dep ⟨hon, hnot, fun user huser huses => ?_⟩ hused)
      exact hbefore ⟨user, huser, huses⟩

/-- Whether every enabled module was asked for or another enabled one depends on it. -/
def EachNeeded (c : Catalog) : Prop :=
  ∀ name, c.isEnabled name = true → name ∉ c.explicit →
    ∃ user, user ≠ name ∧ c.isEnabled user = true ∧ name ∈ c.effectiveDeps user

/-- Without cycles no module is its own user. -/
theorem eachNeeded_iff_not_useless (hacyclic : c.Acyclic) :
    c.EachNeeded ↔ ∀ dep, ¬ c.Useless dep := by
  constructor
  · rintro hall dep ⟨hon, hnot, huseless⟩
    obtain ⟨user, -, huser, huses⟩ := hall dep hon hnot
    exact huseless user huser huses
  · intro hnone name hon hnot
    obtain ⟨user, huser, huses⟩ : ∃ user, c.isEnabled user = true ∧ name ∈ c.effectiveDeps user := by
      by_contra hunused
      exact hnone name ⟨hon, hnot, fun user huser huses => hunused ⟨user, huser, huses⟩⟩
    refine ⟨user, ?_, huser, huses⟩
    rintro rfl
    exact hacyclic user (.single ⟨huses, isModule_of_isEnabled hon⟩)

end Catalog

namespace Command

open Catalog

variable {c d e : Catalog} {rs : List ParamRef} {changes : List (ParamRef × Change)}

/-- What turning off settings was reported to release. -/
def releasedBy (changes : List (ParamRef × Change)) : List String :=
  changes.flatMap fun (_, change) => change.released

/-- Turning off flags in turn succeeds. -/
theorem exists_zeroAll (hbuilt : c.IsBuilt) {done : List ParamRef} {released : List String}
    (h : c.TurnedOff done released d) (hflags : ∀ r ∈ rs, c.IsFlag r) :
    ∃ changes e, zeroAll d rs = .ok (changes, e)
      ∧ c.TurnedOff (done ++ rs) (released ++ releasedBy changes) e := by
  induction rs generalizing done released d with
  | nil => exact ⟨[], d, rfl, by simpa [releasedBy] using h⟩
  | cons r rs ih =>
      obtain ⟨hflag, hrest⟩ := List.forall_mem_cons.1 hflags
      obtain ⟨change, e, hzero, hone⟩ := h.zeroParameter hbuilt hflag
      obtain ⟨changes, e', hall, hend⟩ := ih hone hrest
      refine ⟨(r, change) :: changes, e', ?_, ?_⟩
      · rw [zeroAll, hzero]
        simp only [bind, Except.bind, hall]
        rfl
      · rw [List.append_assoc, List.append_assoc] at hend
        exact hend

theorem coherent_of_zeroAll (hc : c.Coherent) (h : zeroAll c rs = .ok (changes, d)) :
    d.Coherent := by
  induction rs generalizing c changes with
  | nil =>
      cases h
      exact hc
  | cons r rs ih =>
      simp only [zeroAll, Outcome.bind_eq_ok_iff, Prod.exists] at h
      obtain ⟨change, c', hzero, changes', d', hall, hd⟩ := h
      cases hd
      exact ih (hc.setParameter hzero) hall

/-! ## The list -/

/-- The list that is released: the orphans, and what turning off settings was reported to release. -/
def unusedOf (o : Unselected) (changes : List (ParamRef × Change)) : List String :=
  (releasedBy changes).foldl addNew o.orphans

theorem mem_unusedOf {o : Unselected} {other : String} :
    other ∈ unusedOf o changes ↔ other ∈ o.orphans ∨ other ∈ releasedBy changes :=
  mem_foldl_addNew

/-- Whether a state is left when a module was withdrawn from another one and the settings that
were reported have been turned off. -/
structure Settled (c : Catalog) (name : String) (changes : List (ParamRef × Change)) (e : Catalog) :
    Prop where
  zeroAll : zeroAll (c.withdraw name).2 (c.withdraw name).1.unsatisfied = .ok (changes, e)
  turnedOff : (c.withdraw name).2.TurnedOff (c.withdraw name).1.unsatisfied (releasedBy changes) e

variable {name : String}

theorem exists_settled (hbuilt : c.IsBuilt) (name : String) :
    ∃ changes e, Settled c name changes e := by
  have hafter : (c.withdraw name).2.IsBuilt := hbuilt.congr (declared_withdraw c name)
  have hflags : ∀ r ∈ (c.withdraw name).1.unsatisfied, (c.withdraw name).2.IsFlag r := by
    intro r hr
    rw [unsatisfied_withdraw, mem_unsatisfiedBy hafter] at hr
    obtain ⟨-, -, p, hp, htype, -⟩ := hr
    exact ⟨p, hp, htype⟩
  obtain ⟨changes, e, hall, hoff⟩ := exists_zeroAll hafter (.refl _) hflags
  exact ⟨changes, e, hall, hoff⟩

namespace Settled

section

variable (h : Settled c name changes e)

include h

theorem isBuilt (hbuilt : c.IsBuilt) : e.IsBuilt :=
  hbuilt.congr (h.turnedOff.cleared.declared.trans (declared_withdraw c name))

theorem coherent (hc : c.Coherent) (hbuilt : c.IsBuilt) : e.Coherent :=
  coherent_of_zeroAll (hc.withdraw hbuilt name) h.zeroAll

/-- Dependencies are those from before, or fewer. -/
theorem mem_effectiveDeps {user dep : String} (hdep : dep ∈ e.effectiveDeps user) :
    dep ∈ c.effectiveDeps user := by
  rw [← (sameGraph_withdraw c name).effectiveDeps user]
  exact h.turnedOff.cleared.mem_effectiveDeps hdep

/-- All users of what is listed are listed. -/
theorem hasUsersOf (hbuilt : c.IsBuilt) :
    e.HasUsersOf {other | other ∈ unusedOf (c.withdraw name).1 changes} := by
  have hafter : (c.withdraw name).2.IsBuilt := hbuilt.congr (declared_withdraw c name)
  intro dep hdep user huser huses
  rcases mem_unusedOf.1 hdep with hdep | hdep
  · have hon := h.turnedOff.cleared.isEnabled user
    rw [huser] at hon
    have horphan := (idleInTurn_orphansOf _ _).hasUsersOf hafter dep hdep user hon.symm
      (h.turnedOff.cleared.mem_effectiveDeps huses)
    exact mem_unusedOf.2 (.inl horphan)
  · exact absurd huses (h.turnedOff.useless dep hdep user huser)

/-- What is enabled and was not asked for was so before. -/
theorem enabled_before {dep : String} (hon : e.isEnabled dep = true) (hnot : dep ∉ e.explicit) :
    c.isEnabled dep = true ∧ dep ∉ c.explicit := by
  rw [h.turnedOff.cleared.isEnabled] at hon
  rw [h.turnedOff.explicit, mem_explicit_withdraw] at hnot
  obtain ⟨hbefore, hstays⟩ := (isEnabled_withdraw c name dep).1 hon
  exact ⟨hbefore, fun hmem => hnot ⟨hmem, hstays⟩⟩

/-- What has lost all its users is listed. -/
theorem mem_unusedOf_of_useless (hbuilt : c.IsBuilt) {dep : String} (huseless : e.Useless dep)
    (hused : ∃ user, c.isEnabled user = true ∧ dep ∈ c.effectiveDeps user) :
    dep ∈ unusedOf (c.withdraw name).1 changes := by
  rw [mem_unusedOf]
  -- A user that outlived the withdrawal can only have lost a flag.
  by_cases hstill : ∃ user, (c.withdraw name).2.isEnabled user = true
      ∧ dep ∈ (c.withdraw name).2.effectiveDeps user
  · exact .inr (h.turnedOff.mem_released dep huseless hstill)
  · obtain ⟨hon, hnot, -⟩ := huseless
    rw [h.turnedOff.cleared.isEnabled] at hon
    rw [h.turnedOff.explicit] at hnot
    refine .inl (mem_orphans_withdraw hbuilt ⟨hon, hnot, fun user huser huses => ?_⟩ hused)
    exact hstill ⟨user, huser, huses⟩

theorem closed (hc : c.Coherent) (hbuilt : c.IsBuilt) (hclosed : c.Closed) : e.Closed := by
  refine h.turnedOff.cleared.closed (hc.withdraw hbuilt name)
    (fun _ huser _ hdep hmod => hclosed.isEnabled_withdraw_or huser hdep hmod) fun r hr => ?_
  rw [unsatisfied_withdraw]
  exact (mem_unsatisfiedBy (hbuilt.congr (declared_withdraw c name))).2 hr

/-- Releasing the list disables it and nothing else. -/
theorem isEnabled_release_iff (hc : c.Coherent) (hbuilt : c.IsBuilt) (other : String) :
    (e.release (unusedOf (c.withdraw name).1 changes)).2.isEnabled other = true
      ↔ e.isEnabled other = true ∧ other ∉ unusedOf (c.withdraw name).1 changes :=
  Catalog.isEnabled_release_iff (h.coherent hc hbuilt) (h.isBuilt hbuilt) (h.hasUsersOf hbuilt) other

theorem acyclic (hacyclic : c.Acyclic) :
    (e.release (unusedOf (c.withdraw name).1 changes)).2.Acyclic := by
  have hdeclared := h.turnedOff.cleared.declared.trans (declared_withdraw c name)
  have he : e.Acyclic := hacyclic.mono fun user dep hdep =>
    ⟨h.mem_effectiveDeps hdep.1, isModule_congr hdeclared dep ▸ hdep.2⟩
  exact he.congr (above_release ..).graph.symm

/-- Orphans alone take in what only they need. -/
theorem takesUnneeded_of_nil (hbuilt : c.IsBuilt) (hnone : (c.withdraw name).1.unsatisfied = []) :
    e.TakesUnneeded [] {other | other ∈ unusedOf (c.withdraw name).1 changes} := by
  have hall := h.zeroAll
  rw [hnone] at hall
  cases hall
  have hlist : ∀ other, other ∈ unusedOf (c.withdraw name).1 []
      ↔ other ∈ (c.withdraw name).1.orphans := fun other => by simp [mem_unusedOf, releasedBy]
  simp only [hlist]
  intro dep hon hnot hused husers
  refine (isLeast_orphans_withdraw hbuilt name).1 dep hon hnot ?_ husers
  obtain ⟨user, huser, huses⟩ := hused
  exact ⟨user, .inr (huser.resolve_left List.not_mem_nil), huses⟩

section

variable (hc : c.Coherent) (hbuilt : c.IsBuilt)
  (hneeded : ∀ other, c.isEnabled other = true → other ∉ c.explicit →
    ∃ user, c.isEnabled user = true ∧ other ∈ c.effectiveDeps user)

include hc hbuilt hneeded

/-- What is without users in the end had some before the list was released. -/
theorem exists_user_of_useless {dep : String}
    (huseless : (e.release (unusedOf (c.withdraw name).1 changes)).2.Useless dep) :
    ∃ user, e.isEnabled user = true ∧ dep ∈ e.effectiveDeps user := by
  obtain ⟨hstays, hnot, -⟩ := huseless
  obtain ⟨hon, hout⟩ := (h.isEnabled_release_iff hc hbuilt dep).1 hstays
  rw [mem_explicit_release hstays] at hnot
  obtain ⟨hbefore, hnotBefore⟩ := h.enabled_before hon hnot
  by_contra hnone
  refine hout (h.mem_unusedOf_of_useless hbuilt ⟨hon, hnot, fun user huser huses => ?_⟩
    (hneeded dep hbefore hnotBefore))
  exact hnone ⟨user, huser, huses⟩

/-- Everything that is enabled in the end is there for a reason exactly if the list takes in what only
its members need. -/
theorem eachNeeded_iff (hacyclic : c.Acyclic) :
    (e.release (unusedOf (c.withdraw name).1 changes)).2.EachNeeded
      ↔ e.TakesUnneeded [] {other | other ∈ unusedOf (c.withdraw name).1 changes} := by
  have hleft := h.isEnabled_release_iff hc hbuilt
  have hdeps := (above_release e (unusedOf (c.withdraw name).1 changes)).graph.symm.effectiveDeps
  rw [eachNeeded_iff_not_useless (h.acyclic hacyclic)]
  constructor
  · rintro hnone dep hon hnot - husers
    by_contra hout
    have hstays := (hleft dep).2 ⟨hon, hout⟩
    refine hnone dep ⟨hstays, by rwa [mem_explicit_release hstays], fun user huser huses => ?_⟩
    obtain ⟨huser, hlisted⟩ := (hleft user).1 huser
    exact hlisted (husers user huser (hdeps user ▸ huses))
  · intro htakes dep huseless
    obtain ⟨user, huser, huses⟩ := h.exists_user_of_useless hc hbuilt hneeded huseless
    obtain ⟨hstays, hnot, hunused⟩ := huseless
    obtain ⟨hon, hout⟩ := (hleft dep).1 hstays
    rw [mem_explicit_release hstays] at hnot
    have hlisted : ∀ other, e.isEnabled other = true → dep ∈ e.effectiveDeps other →
        other ∈ unusedOf (c.withdraw name).1 changes := by
      intro other hother hneeds
      by_contra hunlisted
      exact hunused other ((hleft other).2 ⟨hother, hunlisted⟩) (by rwa [hdeps])
    exact hout (htakes dep hon hnot ⟨user, .inr (hlisted user huser huses), huses⟩ hlisted)

/-- It is so exactly if none of the orphans that the releases report is left. -/
theorem eachNeeded_iff_orphans (hacyclic : c.Acyclic) :
    (e.release (unusedOf (c.withdraw name).1 changes)).2.EachNeeded
      ↔ ∀ o ∈ (e.release (unusedOf (c.withdraw name).1 changes)).1, ∀ orphan ∈ o.orphans,
        (e.release (unusedOf (c.withdraw name).1 changes)).2.isEnabled orphan = false := by
  have hfinal := h.acyclic hacyclic
  rw [eachNeeded_iff_not_useless hfinal]
  constructor
  · intro hnone o ho orphan horphan
    by_contra hon
    obtain ⟨dep, huseless⟩ := exists_useless_of_orphan (hfinal.congr (above_release ..).graph)
      (h.isBuilt hbuilt) ho horphan (by simpa using hon)
    exact hnone dep huseless
  · intro hoff dep huseless
    have hused := h.exists_user_of_useless hc hbuilt hneeded huseless
    obtain ⟨o, ho, horphan⟩ := exists_orphan_of_useless (h.isBuilt hbuilt) huseless hused
    have hleft := huseless.1
    rw [hoff o ho dep horphan] at hleft
    cases hleft

end

end

end Settled

/-! ## Carrying it out -/

theorem gives_turnOff (hall : zeroAll c rs = .ok (changes, d)) :
    (turnOff c true rs).Gives (releasedBy changes, d) := by
  unfold turnOff
  split
  · next hnone =>
    subst hnone
    cases hall
    exact gives_pure _
  · exact (prints_say _).gives.bind ((prints_sayAll _).gives.bind (prints_pure.gives.bind
      ((gives_attempt hall).bind ((prints_sayAll _).gives.bind (gives_pure _)))))

theorem gives_releaseUnused (c : Catalog) (names : List String) :
    (releaseUnused c true names).Gives (c.release names).2 := by
  unfold releaseUnused
  split
  · next hnone =>
    subst hnone
    exact gives_pure c
  · exact (prints_say _).gives.bind ((prints_sayAll _).gives.bind (prints_pure.gives.bind
      ((prints_sayAll _).gives.bind (gives_pure _))))

theorem gives_disableOne (h : Settled c name changes e) (hon : c.isEnabled name = true) :
    (disableOne true c name).Gives (e.release (unusedOf (c.withdraw name).1 changes)).2 := by
  have hunselect := unselect_of_isModule (isModule_of_isEnabled hon)
  unfold disableOne
  rw [if_neg (by simp [hon])]
  exact (gives_attempt hunselect).bind ((prints_say _).gives.bind ((prints_sayAll _).gives.bind
    ((gives_turnOff h.zeroAll).bind (gives_releaseUnused _ _))))

/-- Disabling a module saves what is left when the list has been released. -/
theorem exists_execute_disable (s : Session) (h : Settled s.catalog name changes e)
    (hon : s.catalog.isEnabled name = true) (now : Instant) (tree : FileTree) :
    ∃ p : Progress, p.tree = tree ∧ execute (disable s now [name] true) tree
      = (saveSession { s with
          catalog := (e.release (unusedOf (s.catalog.withdraw name).1 changes)).2 } now).runFrom p := by
  have hgives : ([name].foldlM (disableOne true) s.catalog).Gives
      (e.release (unusedOf (s.catalog.withdraw name).1 changes)).2 := by
    rw [List.foldlM_cons]
    exact (gives_disableOne h hon).bind (gives_pure _)
  obtain ⟨p, hp, htree⟩ := hgives { tree }
  exact ⟨p, htree, by rw [execute_eq, disable, runFrom_bind, hp]⟩

/-- Disabling an enabled module with every question answered, in a state in which dependencies form no
cycle, all that enabled modules depend on is enabled, and enabled modules that were not asked for have a
user. Every opened session has a state that a catalogue can get into (`Session.exists_run_of_load`). The
state that is saved is closed, and everything that is enabled there was asked for or has another user
exactly if the list that was released takes in what only its members need, and exactly if no orphan that
a release reports is left. That is so whenever no setting had to be turned off. -/
theorem disable_spec (s : Session) {sourceRoot : String} {modules : List Module}
    {headers : List Header} {lists : List ValueList} {ops : List Operation}
    (hstate : s.catalog = (build sourceRoot modules headers lists).run ops)
    (hacyclic : s.catalog.Acyclic) (hclosed : s.catalog.Closed)
    (hneeded : ∀ other, s.catalog.isEnabled other = true → other ∉ s.catalog.explicit →
      ∃ user, s.catalog.isEnabled user = true ∧ other ∈ s.catalog.effectiveDeps user)
    {name : String} (hon : s.catalog.isEnabled name = true) (now : Instant) (tree : FileTree) :
    ∃ o d changes e outcomes final, s.catalog.unselect name = .ok (o, d)
      ∧ zeroAll d o.unsatisfied = .ok (changes, e)
      ∧ e.release (unusedOf o changes) = (outcomes, final)
      ∧ (∃ p : Progress, p.tree = tree ∧ execute (disable s now [name] true) tree
        = (saveSession { s with catalog := final } now).runFrom p)
      ∧ final.Closed
      ∧ (final.EachNeeded ↔ e.TakesUnneeded [] {other | other ∈ unusedOf o changes})
      ∧ (final.EachNeeded
        ↔ ∀ outcome ∈ outcomes, ∀ orphan ∈ outcome.orphans, final.isEnabled orphan = false)
      ∧ (o.unsatisfied = [] → final.EachNeeded) := by
  have hbuilt : s.catalog.IsBuilt := by
    rw [hstate]
    exact (isBuilt_build ..).run ops
  have hc : s.catalog.Coherent := by
    rw [hstate]
    exact (coherent_build ..).run (isBuilt_build ..) ops
  obtain ⟨changes, e, h⟩ := exists_settled hbuilt name
  have hiff := h.eachNeeded_iff hc hbuilt hneeded hacyclic
  refine ⟨_, _, changes, e, _, _, unselect_of_isModule (isModule_of_isEnabled hon), h.zeroAll, rfl,
    exists_execute_disable s h hon now tree, ?_, hiff,
    h.eachNeeded_iff_orphans hc hbuilt hneeded hacyclic,
    fun hnone => hiff.2 (h.takesUnneeded_of_nil hbuilt hnone)⟩
  exact (h.closed hc hbuilt hclosed).release (h.coherent hc hbuilt) (h.isBuilt hbuilt)
    (h.hasUsersOf hbuilt)

/-! ## A setting that is turned off -/

/-- A module whose header has a flag that requires two others, and what one of these lists. -/
def traceModules : List Module :=
  [moduleOn "app" [] (some "app.h"), moduleOn "net" [] none, moduleOn "log" ["fmt"] none,
    moduleOn "fmt" [] none]

/-- The header, with the flag set. -/
def traceHeader : Header :=
  ⟨"app.h", [{ flagOn "TRACE" ["net", "log"] with value := "1" }], by simp, ""⟩

/-- A session in which only `app` was asked for. -/
def traceSession : Session :=
  { (default : Session) with
    catalog := (build "" traceModules [traceHeader] []).run [.select "app"] }

theorem consistent_traceSession : traceSession.catalog.Consistent := by
  have hacyclic : (build "" traceModules [traceHeader] []).Acyclic := by
    refine .of_rank (fun name => if name = "app" then 2 else if name = "log" then 1 else 0) ?_
    have hranks : ∀ user ∈ (build "" traceModules [traceHeader] []).modules.keys,
        ∀ dep ∈ (build "" traceModules [traceHeader] []).effectiveDeps user,
          (if dep = "app" then 2 else if dep = "log" then 1 else 0)
            < if user = "app" then 2 else if user = "log" then 1 else 0 := by
      decide +kernel
    intro user dep hdep
    obtain ⟨m, hm, -⟩ := mem_effectiveDeps_iff.1 hdep.1
    exact hranks user (NameMap.mem_keys_iff.2 (isModule_iff.2 ⟨m, hm⟩)) dep hdep.1
  have happ : (build "" traceModules [traceHeader] []).isModule "app" = true := by decide +kernel
  have hselect : traceSession.catalog = ((build "" traceModules [traceHeader] []).enable "app").1 :=
    step_select happ
  rw [hselect]
  exact (consistent_build _ _ _ _ hacyclic).enable (isBuilt_build ..) happ

theorem isEnabled_traceSession : traceSession.catalog.isEnabled "net" = true := by
  show ((build "" traceModules [traceHeader] []).run [.select "app"]).isEnabled "net" = true
  cbv

theorem disable_spec_traceSession :
    let c := traceSession.catalog
    let tree : FileTree := { entries := .empty, workingDir := [] }
    (c = (build "" traceModules [traceHeader] []).run [.select "app"] ∧ c.Acyclic ∧ c.Closed
      ∧ (∀ other, c.isEnabled other = true → other ∉ c.explicit →
        ∃ user, c.isEnabled user = true ∧ other ∈ c.effectiveDeps user)
      ∧ c.isEnabled "net" = true)
    ∧ ∃ o d changes e outcomes final, c.unselect "net" = .ok (o, d)
      ∧ zeroAll d o.unsatisfied = .ok (changes, e)
      ∧ e.release (unusedOf o changes) = (outcomes, final)
      ∧ (∃ p : Progress, p.tree = tree ∧ execute (disable traceSession ⟨0, 0⟩ ["net"] true) tree
        = (saveSession { traceSession with catalog := final } ⟨0, 0⟩).runFrom p)
      ∧ final.Closed
      ∧ (final.EachNeeded ↔ e.TakesUnneeded [] {other | other ∈ unusedOf o changes})
      ∧ (final.EachNeeded
        ↔ ∀ outcome ∈ outcomes, ∀ orphan ∈ outcome.orphans, final.isEnabled orphan = false)
      ∧ (o.unsatisfied = [] → final.EachNeeded) := by
  intro c tree
  have hc : c.Consistent := consistent_traceSession
  exact ⟨⟨rfl, hc.acyclic, hc.closed, hc.needed, isEnabled_traceSession⟩,
    disable_spec traceSession rfl hc.acyclic hc.closed hc.needed isEnabled_traceSession _ _⟩

/-- Turning the flag off frees `log`, which is released. Only `log` needed `fmt`, which stays. -/
theorem not_eachNeeded_traceSession :
    let c := traceSession.catalog
    let tree : FileTree := { entries := .empty, workingDir := [] }
    c.Acyclic ∧ c.Closed
      ∧ (∀ other, c.isEnabled other = true → other ∉ c.explicit →
        ∃ user, c.isEnabled user = true ∧ other ∈ c.effectiveDeps user)
      ∧ c.isEnabled "net" = true
      ∧ ∃ final, (∃ p : Progress, p.tree = tree
          ∧ execute (disable traceSession ⟨0, 0⟩ ["net"] true) tree
            = (saveSession { traceSession with catalog := final } ⟨0, 0⟩).runFrom p)
        ∧ ¬ final.EachNeeded := by
  intro c tree
  have hc : c.Consistent := consistent_traceSession
  have hbuilt : c.IsBuilt := (isBuilt_build ..).run [.select "app"]
  obtain ⟨changes, e, h⟩ := exists_settled hbuilt "net"
  refine ⟨hc.acyclic, hc.closed, hc.needed, isEnabled_traceSession, _,
    exists_execute_disable traceSession h isEnabled_traceSession _ tree, fun hall => ?_⟩
  have hidle : (e.release (unusedOf (c.withdraw "net").1 changes)).2.isIdle [] "fmt" = true := by
    have hrun : (match zeroAll (traceSession.catalog.withdraw "net").2
          (traceSession.catalog.withdraw "net").1.unsatisfied with
        | .ok (changes, e) =>
          (e.release (unusedOf (traceSession.catalog.withdraw "net").1 changes)).2.isIdle [] "fmt"
        | .error _ => false) = true := by
      cbv
    rwa [h.zeroAll] at hrun
  have hfinal : (e.release (unusedOf (c.withdraw "net").1 changes)).2.IsBuilt :=
    (h.isBuilt hbuilt).congr (above_release ..).graph.declared.symm
  rw [eachNeeded_iff_not_useless (h.acyclic hc.acyclic)] at hall
  exact hall "fmt" ((isIdle_nil_iff hfinal).1 hidle)

end Command

end Configurator
