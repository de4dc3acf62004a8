import Configurator.Proofs.Catalog.Disabling
import Configurator.Proofs.Catalog.Undo

/-!
# Releasing orphans

Unselecting a module reports as orphans what nothing needs any more. They are the least set that takes
in every enabled module, unless it was asked for, that something removed or in the set depends on and
nothing else does (`isLeast_orphansOf`). Releasing them afterwards disables them and no other module
(`orphans_spec`).

The search finds a member of every such set in each step, so the order of the candidates makes no
difference. Releasing goes from dependency to user, and the users of an orphan are orphans themselves: a
set from which no enabled module outside leads into it is never left.

Releases report orphans in turn. A module that loses its last user on the way is among them
(`exists_orphan_of_useless`), and where one of them is left in the end, something is without users
(`exists_useless_of_orphan`).
-/

namespace Configurator.Catalog

open Relation

variable {c d : Catalog} {removed : List String} {S : Set String}

/-! ## The least set of unneeded modules -/

/-- Whether a set has every enabled module, unless it was asked for, that a removed module or a member
depends on and no enabled module but members. -/
def TakesUnneeded (c : Catalog) (removed : List String) (S : Set String) : Prop :=
  ∀ dep, c.isEnabled dep = true → dep ∉ c.explicit →
    (∃ user, (user ∈ removed ∨ user ∈ S) ∧ dep ∈ c.effectiveDeps user) →
    (∀ user, c.isEnabled user = true → dep ∈ c.effectiveDeps user → user ∈ S) → dep ∈ S

/-- A search that starts from the dependencies of removed modules stays in every set that takes in what
is unneeded. -/
theorem TakesUnneeded.sweep (hS : c.TakesUnneeded removed S) (hbuilt : c.IsBuilt)
    {candidates released todo : List String} {progress : Bool}
    (hcandidates : ∀ name ∈ candidates,
      ∃ user, (user ∈ removed ∨ user ∈ S) ∧ name ∈ c.effectiveDeps user)
    (hreleased : ∀ name ∈ released, name ∈ S) (htodo : ∀ name ∈ todo, name ∈ candidates) :
    ∀ name ∈ c.sweep candidates released progress todo, name ∈ S := by
  fun_induction Catalog.sweep c candidates released progress todo with
  | case1 candidates released ih => exact ih hcandidates hreleased fun _ hname => hname
  | case2 candidates released => exact hreleased
  | case3 candidates released progress name todo hidle new ih =>
      obtain ⟨-, hon, hnot, huseless⟩ := (isIdle_iff hbuilt).1 hidle
      have hname : name ∈ S := by
        refine hS name hon hnot (hcandidates name (htodo name List.mem_cons_self)) ?_
        intro user huser hdep
        by_contra hout
        exact huseless user huser (fun hmem => hout (hreleased user hmem)) hdep
      refine ih (fun other hother => ?_) ?_ ?_
      · rcases mem_newCandidates.1 hother with hother | hother
        · exact hcandidates other hother
        · exact ⟨name, .inr hname, (List.mem_filter.1 hother).1⟩
      · intro other hother
        rcases List.mem_append.1 hother with hother | hother
        · exact hreleased other hother
        · rwa [List.mem_singleton.1 hother]
      · intro other hother
        rcases List.mem_append.1 hother with hother | hother
        · exact List.mem_append_left _ (htodo other (List.mem_cons_of_mem _ hother))
        · exact List.mem_append_right _ hother
  | case4 candidates released progress name todo hidle ih =>
      exact ih hcandidates hreleased fun other hother => htodo other (List.mem_cons_of_mem _ hother)

/-- The orphans are the least set that takes in what is unneeded without some removed modules. -/
theorem isLeast_orphansOf (hbuilt : c.IsBuilt) {candidates : List String}
    (hcandidates : ∀ name, name ∈ candidates
      ↔ (∃ user ∈ removed, name ∈ c.effectiveDeps user) ∧ c.isModule name = true) :
    IsLeast {S | c.TakesUnneeded removed S} {name | name ∈ c.orphansOf candidates} := by
  constructor
  · intro dep hon hnot hneeded hothers
    by_contra hout
    have hmod := isModule_of_isEnabled hon
    have hbusy : c.isIdle (c.orphansOf candidates) dep = false := by
      refine isIdle_orphansOf ?_
      obtain ⟨user, huser | huser, hdep⟩ := hneeded
      · exact .inl ((hcandidates dep).2 ⟨⟨user, huser, hdep⟩, hmod⟩)
      · exact .inr ⟨user, huser, hdep, hmod⟩
    have hidle : c.isIdle (c.orphansOf candidates) dep = true :=
      (isIdle_iff hbuilt).2 ⟨hout, hon, hnot, fun user huser hstays hdep =>
        hstays (hothers user huser hdep)⟩
    rw [hidle] at hbusy
    cases hbusy
  · intro S hS name hname
    refine TakesUnneeded.sweep hS hbuilt (fun other hother => ?_) (by simp) (fun _ h => h) name hname
    obtain ⟨⟨user, huser, hdep⟩, -⟩ := (hcandidates other).1 hother
    exact ⟨user, .inl huser, hdep⟩

theorem IdleInTurn.nodup {released : List String} (h : c.IdleInTurn released) : released.Nodup := by
  induction h with
  | nil => exact List.nodup_nil
  | @append released name _ hidle ih =>
      simp only [isIdle, Bool.and_eq_true, decide_eq_true_eq] at hidle
      exact List.nodup_append.2 ⟨ih, List.nodup_singleton name, fun a ha b hb heq =>
        hidle.1.1.1 (List.mem_singleton.1 hb ▸ heq ▸ ha)⟩

theorem IdleInTurn.not_mem_explicit (hbuilt : c.IsBuilt) {released : List String}
    (h : c.IdleInTurn released) {name : String} (hname : name ∈ released) : name ∉ c.explicit := by
  induction h with
  | nil => exact absurd hname List.not_mem_nil
  | @append released last _ hidle ih =>
      rcases List.mem_append.1 hname with hname | hname
      · exact ih hname
      · obtain ⟨-, -, hnot, -⟩ := (isIdle_iff hbuilt).1 hidle
        rwa [List.mem_singleton.1 hname]

theorem isLeast_orphans_withdraw (hbuilt : c.IsBuilt) (name : String) :
    IsLeast {S | (c.withdraw name).2.TakesUnneeded (name :: (c.withdraw name).1.disabled) S}
      {dep | dep ∈ (c.withdraw name).1.orphans} := by
  have hgraph := sameGraph_withdraw c name
  refine isLeast_orphansOf (hbuilt.congr hgraph.declared) fun dep => ?_
  rw [mem_dependenciesOf]
  simp only [hgraph.effectiveDeps, hgraph.isModule]
  rfl

/-- What `spi` needs is an orphan, and with it what only that needs. -/
example : (((build "" [moduleOn "spi" ["dma"] none, moduleOn "dma" ["irq"] none,
    moduleOn "irq" [] none] [] []).enable "spi").1.withdraw "spi").1.orphans = ["dma", "irq"] := by
  cbv

/-! ## Releasing a set without users outside -/

/-- Whether the enabled modules that depend on a member of a set are members as well. -/
def HasUsersOf (c : Catalog) (S : Set String) : Prop :=
  ∀ dep ∈ S, ∀ user, c.isEnabled user = true → dep ∈ c.effectiveDeps user → user ∈ S

theorem HasUsersOf.congr (hS : c.HasUsersOf S) (hgraph : SameGraph d c)
    (henabled : ∀ name, d.isEnabled name = true → c.isEnabled name = true) : d.HasUsersOf S := by
  intro dep hdep user huser huses
  rw [hgraph.effectiveDeps user] at huses
  exact hS dep hdep user (henabled user huser) huses

/-- From an enabled module that lists members of such a set, directly or not, one does not get in. -/
theorem HasUsersOf.mem_of_path (hS : c.HasUsersOf S) (hc : c.Coherent) {user dep : String}
    (hpath : ReflTransGen c.HardDep user dep) (hdep : dep ∈ S) (huser : c.isEnabled user = true) :
    user ∈ S := by
  induction hpath using ReflTransGen.head_induction_on with
  | refl => exact hdep
  | @head user next hstep hrest ih =>
      have hnext : c.isEnabled next = true := hc.isEnabled_of_path (.single hstep) huser
      obtain ⟨m, hm, hlisted, -⟩ := hstep
      exact hS next (ih hnext) user huser (mem_effectiveDeps_iff.2 ⟨m, hm, .inl hlisted⟩)

/-- Withdrawing a member takes only members away. -/
theorem HasUsersOf.stays_withdraw (hS : c.HasUsersOf S) (hc : c.Coherent) (hbuilt : c.IsBuilt)
    {name other : String} (hname : name ∈ S) (hmod : c.isModule name = true) (hother : other ∉ S)
    (hon : c.isEnabled other = true) : (c.withdraw name).2.isEnabled other = true := by
  refine (unselects_withdraw hc hbuilt hmod).enabled other |>.2 ⟨hon, ?_, fun hpath => ?_⟩
  · rintro rfl
    exact hother hname
  · exact hother (hS.mem_of_path hc hpath.to_reflTransGen hname hon)

/-- Releasing members takes only members away. -/
theorem HasUsersOf.stays_release (hS : c.HasUsersOf S) (hc : c.Coherent) (hbuilt : c.IsBuilt)
    {names : List String} (hnames : ∀ name ∈ names, name ∈ S) {other : String} (hother : other ∉ S)
    (hon : c.isEnabled other = true) : (c.release names).2.isEnabled other = true := by
  induction names generalizing c with
  | nil => exact hon
  | cons name names ih =>
      obtain ⟨hname, hrest⟩ := List.forall_mem_cons.1 hnames
      rw [release]
      split
      · next hfirst =>
        have hmod := isModule_of_isEnabled hfirst
        refine ih (hS.congr (sameGraph_withdraw c name) fun n hn => ?_) (hc.withdraw hbuilt name)
          (hbuilt.congr (declared_withdraw c name)) hrest
          (hS.stays_withdraw hc hbuilt hname hmod hother hon)
        exact ((isEnabled_withdraw c name n).1 hn).1
      · exact ih hS hc hbuilt hrest hon

/-- Releasing the modules of a list that holds all users of its members disables them and no others. -/
theorem isEnabled_release_iff (hc : c.Coherent) (hbuilt : c.IsBuilt) {names : List String}
    (husers : c.HasUsersOf {name | name ∈ names}) (other : String) :
    (c.release names).2.isEnabled other = true ↔ c.isEnabled other = true ∧ other ∉ names := by
  constructor
  · intro hon
    refine ⟨(above_release c names).enabled other hon, fun hmem => ?_⟩
    rw [isEnabled_release hmem] at hon
    cases hon
  · rintro ⟨hon, hnot⟩
    exact husers.stays_release hc hbuilt (fun _ hname => hname) hnot hon

/-- What stays enabled stays asked for. -/
theorem mem_explicit_release {names : List String} {other : String}
    (hon : (c.release names).2.isEnabled other = true) :
    other ∈ (c.release names).2.explicit ↔ other ∈ c.explicit := by
  refine ⟨(above_release c names).explicit other, fun hmem => ?_⟩
  refine release_induction (P := fun d => d.isEnabled other = true → other ∈ d.explicit)
    (fun d name _ hd hleft => ?_) names (fun _ => hmem) hon
  obtain ⟨hbefore, hstays⟩ := (isEnabled_withdraw d name other).1 hleft
  exact (mem_explicit_withdraw d name other).2 ⟨hd hbefore, hstays⟩

/-- A closed catalogue stays closed when such a list is released. -/
theorem Closed.release (hclosed : c.Closed) (hc : c.Coherent) (hbuilt : c.IsBuilt)
    {names : List String} (husers : c.HasUsersOf {name | name ∈ names}) :
    (c.release names).2.Closed := by
  have hgraph := (above_release c names).graph.symm
  intro user huser dep hdep hmod
  rw [hgraph.effectiveDeps user] at hdep
  rw [hgraph.isModule dep] at hmod
  obtain ⟨hon, hnot⟩ := (isEnabled_release_iff hc hbuilt husers user).1 huser
  refine (isEnabled_release_iff hc hbuilt husers dep).2 ⟨hclosed user hon dep hdep hmod, fun hmem => ?_⟩
  exact hnot (husers dep hmem user hon hdep)

/-- Modules that are idle in turn are only needed by each other. -/
theorem IdleInTurn.hasUsersOf (hbuilt : c.IsBuilt) {released : List String}
    (h : c.IdleInTurn released) : c.HasUsersOf {name | name ∈ released} := by
  induction h with
  | nil => exact fun dep hdep => absurd hdep List.not_mem_nil
  | @append released last _ hidle ih =>
      obtain ⟨-, -, -, huseless⟩ := (isIdle_iff hbuilt).1 hidle
      intro dep hdep user huser huses
      refine List.mem_append_left _ ?_
      rcases List.mem_append.1 hdep with hdep | hdep
      · exact ih dep hdep user huser huses
      · rw [List.mem_singleton.1 hdep] at huses
        by_contra hout
        exact huseless user huser hout huses

/-! ## Modules without users -/

/-- Whether a module is enabled although it was not asked for and no enabled module depends on it. -/
def Useless (c : Catalog) (dep : String) : Prop :=
  c.isEnabled dep = true ∧ dep ∉ c.explicit
    ∧ ∀ user, c.isEnabled user = true → dep ∉ c.effectiveDeps user

theorem isIdle_nil_iff (hbuilt : c.IsBuilt) {dep : String} :
    c.isIdle [] dep = true ↔ c.Useless dep := by
  simp [isIdle_iff hbuilt, Useless]

/-- A module that loses its last user when another one is withdrawn is reported as an orphan. -/
theorem mem_orphans_withdraw (hbuilt : c.IsBuilt) {name dep : String}
    (h : (c.withdraw name).2.Useless dep)
    (hused : ∃ user, c.isEnabled user = true ∧ dep ∈ c.effectiveDeps user) :
    dep ∈ (c.withdraw name).1.orphans := by
  obtain ⟨hon, hnot, huseless⟩ := h
  obtain ⟨user, huser, hdep⟩ := hused
  rw [← (sameGraph_withdraw c name).effectiveDeps user] at hdep
  have hremoved : user ∈ name :: (c.withdraw name).1.disabled := by
    by_contra hkept
    exact huseless user ((isEnabled_withdraw c name user).2 ⟨huser, hkept⟩) hdep
  refine (isLeast_orphans_withdraw hbuilt name).1 dep hon hnot ⟨user, .inl hremoved, hdep⟩ ?_
  exact fun other hother huses => absurd huses (huseless other hother)

/-- A module that loses its last user when others are released is reported as an orphan by one of the
releases. -/
theorem exists_orphan_of_useless (hbuilt : c.IsBuilt) {names : List String} {dep : String}
    (h : (c.release names).2.Useless dep)
    (hused : ∃ user, c.isEnabled user = true ∧ dep ∈ c.effectiveDeps user) :
    ∃ o ∈ (c.release names).1, dep ∈ o.orphans := by
  induction names generalizing c with
  | nil =>
      obtain ⟨user, huser, hdep⟩ := hused
      exact absurd hdep (h.2.2 user huser)
  | cons name names ih =>
      rw [release] at h ⊢
      split at h
      · next hon =>
        rw [if_pos hon]
        have hafter : (c.withdraw name).2.IsBuilt := hbuilt.congr (declared_withdraw c name)
        by_cases hstill : ∃ user, (c.withdraw name).2.isEnabled user = true
            ∧ dep ∈ (c.withdraw name).2.effectiveDeps user
        · obtain ⟨o, ho, horphan⟩ := ih hafter h hstill
          exact ⟨o, List.mem_cons_of_mem _ ho, horphan⟩
        · have habove := above_release (c.withdraw name).2 names
          refine ⟨_, List.mem_cons_self, mem_orphans_withdraw hbuilt ⟨habove.enabled dep h.1, ?_, ?_⟩
            hused⟩
          · rw [← mem_explicit_release h.1]
            exact h.2.1
          · exact fun user huser hdep => hstill ⟨user, huser, hdep⟩
      · next hoff =>
        rw [if_neg hoff]
        exact ih hbuilt h hused

theorem Acyclic.mono (hc : c.Acyclic)
    (h : ∀ user dep, d.DependsOn user dep → c.DependsOn user dep) : d.Acyclic :=
  fun name hpath => hc name (TransGen.mono h name name hpath)

theorem Acyclic.congr (hc : c.Acyclic) (hgraph : SameGraph d c) : d.Acyclic := by
  refine hc.mono fun user dep hdep => ?_
  rwa [DependsOn, hgraph.effectiveDeps user, hgraph.isModule dep] at hdep

/-- Of modules that were idle in turn, those that are left have one without users among them: going up
from dependencies to users one does not leave them. -/
theorem IdleInTurn.exists_useless (hacyclic : c.Acyclic) (hbuilt : c.IsBuilt)
    {released : List String} (h : c.IdleInTurn released) (habove : Above d c)
    (hleft : ∃ name ∈ released, d.isEnabled name = true) : ∃ dep, d.Useless dep := by
  obtain ⟨dep, ⟨hdep, hon⟩, hfirst⟩ :=
    hacyclic.wellFounded.has_min {name | name ∈ released ∧ d.isEnabled name = true} hleft
  refine ⟨dep, hon, fun hmem => h.not_mem_explicit hbuilt hdep (habove.explicit dep hmem), ?_⟩
  intro user huser huses
  rw [← habove.graph.effectiveDeps user] at huses
  have hbefore := habove.enabled user huser
  have hlisted := h.hasUsersOf hbuilt dep hdep user hbefore huses
  exact hfirst user ⟨hlisted, huser⟩ ⟨huses, isModule_of_isEnabled (habove.enabled dep hon)⟩

/-- Where an orphan that one of the releases reported is left, something has no users. -/
theorem exists_useless_of_orphan (hacyclic : c.Acyclic) (hbuilt : c.IsBuilt) {names : List String}
    {o : Unselected} (ho : o ∈ (c.release names).1) {orphan : String} (horphan : orphan ∈ o.orphans)
    (hon : (c.release names).2.isEnabled orphan = true) : ∃ dep, (c.release names).2.Useless dep := by
  induction names generalizing c with
  | nil => exact absurd ho List.not_mem_nil
  | cons name names ih =>
      rw [release] at ho hon ⊢
      split at hon
      · next hfirst =>
        rw [if_pos hfirst] at ho ⊢
        have hafter : (c.withdraw name).2.IsBuilt := hbuilt.congr (declared_withdraw c name)
        have hacyclic' := hacyclic.congr (sameGraph_withdraw c name)
        rcases List.mem_cons.1 ho with rfl | ho
        · exact IdleInTurn.exists_useless hacyclic' hafter (idleInTurn_orphansOf _ _)
            (above_release _ names) ⟨orphan, horphan, hon⟩
        · exact ih hacyclic' hafter ho hon
      · next hoff =>
        rw [if_neg hoff] at ho ⊢
        exact ih hacyclic hbuilt ho hon

/-! ## Releasing as unselecting -/

/-- Unselects those of some modules that are still enabled when their turn comes, as far as that
succeeds. -/
def unselectAll (c : Catalog) : List String → Except Error (List Unselected × Catalog)
  | [] => .ok ([], c)
  | name :: names =>
    if c.isEnabled name then do
      let (outcome, c) ← c.unselect name
      let (outcomes, c) ← c.unselectAll names
      return (outcome :: outcomes, c)
    else c.unselectAll names

/-- It always succeeds, because a module that is enabled is a module. -/
theorem unselectAll_eq_ok (c : Catalog) (names : List String) :
    c.unselectAll names = .ok (c.release names) := by
  induction names generalizing c with
  | nil => rfl
  | cons name names ih =>
      rw [unselectAll, release]
      split
      · next hon =>
        rw [unselect_of_isModule (isModule_of_isEnabled hon)]
        simp only [bind, Except.bind, ih]
        rfl
      · exact ih c

/-! ## Orphans of reachable states -/

/-- In every state that a catalogue can get into, the orphans that unselecting a module reports are, each
once, the least set that takes in what is unneeded without the modules that the call removes: the one
named and those that it cascades to. Releasing them right afterwards succeeds and disables them and no
other module. -/
theorem orphans_spec (sourceRoot : String) (modules : List Module) (headers : List Header)
    (lists : List ValueList) (ops : List Operation) (name : String) :
    let c := (build sourceRoot modules headers lists).run ops
    c.isModule name = true → ∃ o d, c.unselect name = .ok (o, d)
      ∧ (∀ other, other ∈ name :: o.disabled
        ↔ other = name ∨ (c.isEnabled other = true ∧ d.isEnabled other = false))
      ∧ o.orphans.Nodup
      ∧ IsLeast {S | d.TakesUnneeded (name :: o.disabled) S} {dep | dep ∈ o.orphans}
      ∧ ∃ outcomes e, d.unselectAll o.orphans = .ok (outcomes, e)
        ∧ d.release o.orphans = (outcomes, e)
        ∧ ∀ other, e.isEnabled other = true ↔ d.isEnabled other = true ∧ other ∉ o.orphans := by
  intro c hname
  have hbuilt : c.IsBuilt := (isBuilt_build ..).run ops
  have hc : c.Coherent := (coherent_build ..).run (isBuilt_build ..) ops
  have hafter : (c.withdraw name).2.IsBuilt := hbuilt.congr (declared_withdraw c name)
  have hinTurn : (c.withdraw name).2.IdleInTurn (c.withdraw name).1.orphans :=
    idleInTurn_orphansOf _ _
  have hremoved : ∀ other, other ∈ name :: (c.withdraw name).1.disabled
      ↔ other = name ∨ (c.isEnabled other = true ∧ (c.withdraw name).2.isEnabled other = false) := by
    intro other
    rw [List.mem_cons, (unselects_withdraw hc hbuilt hname).mem_removed other]
    by_cases hother : other = name
    · simp [hother]
    · simp [hother]
  exact ⟨_, _, unselect_of_isModule hname, hremoved, hinTurn.nodup,
    isLeast_orphans_withdraw hbuilt name, _, _, unselectAll_eq_ok _ _, rfl,
    isEnabled_release_iff (hc.withdraw hbuilt name) hafter (hinTurn.hasUsersOf hafter)⟩

/-- `dma` is only needed by `spi` itself, and `irq` by the flag of its header. -/
theorem orphans_spec_busModules :
    let c := (build "" busModules [busHeader] []).run
      [.select "spi", .setParameter "cfg_bus.h" "CONFIG_FAST" "on"]
    c.isModule "spi" = true ∧ ∃ o d, c.unselect "spi" = .ok (o, d)
      ∧ (∀ other, other ∈ "spi" :: o.disabled
        ↔ other = "spi" ∨ (c.isEnabled other = true ∧ d.isEnabled other = false))
      ∧ o.orphans.Nodup
      ∧ IsLeast {S | d.TakesUnneeded ("spi" :: o.disabled) S} {dep | dep ∈ o.orphans}
      ∧ ∃ outcomes e, d.unselectAll o.orphans = .ok (outcomes, e)
        ∧ d.release o.orphans = (outcomes, e)
        ∧ ∀ other, e.isEnabled other = true ↔ d.isEnabled other = true ∧ other ∉ o.orphans := by
  intro c
  have hspi : c.isModule "spi" = true := by
    rw [isModule_congr (declared_run _ _)]
    decide +kernel
  exact ⟨hspi, orphans_spec "" busModules [busHeader] []
    [.select "spi", .setParameter "cfg_bus.h" "CONFIG_FAST" "on"] "spi" hspi⟩

end Configurator.Catalog
