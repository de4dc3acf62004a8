import Configurator.Proofs.Catalog.References

/-!
# Raising flags

A word for true gives a flag the value `1`. A flag that was not set before then requires what it names
from the enabled modules that are bound to its header (`turned`): their bare files are refreshed, and
what they require now (`demanded`) is enabled. Nothing follows if the flag was set, names nothing or is
bound to no enabled module; then both lists are empty, and so one equation says what happens
(`step_setParameter_of_true`).
-/

namespace Configurator

/-- A flag with the value that a word for true gives it. -/
def Parameter.raised (p : Parameter) : Parameter :=
  { p with value := "1" }

theorem Parameter.isSet_raised {p : Parameter} (htype : p.type = .boolean) :
    p.raised.isSet = true := by
  have hword : isTrueText "1" = true := by decide
  simp [isSet, raised, htype, hword]

namespace Catalog

variable {c : Catalog} {configuration name value : String} {flag : Parameter}

/-- The catalogue with a flag at `1`, before anything follows. -/
def raise (c : Catalog) (configuration name : String) (flag : Parameter) : Catalog :=
  c.withParameter configuration name flag.raised

/-- The enabled modules that depend on more when a flag of a header is raised. -/
def turned (c : Catalog) (configuration : String) (flag : Parameter) : List String :=
  if flag.isSet = true ∨ flag.conditionalDeps = [] then [] else c.owners configuration

/-- What they depend on then. -/
def demanded (c : Catalog) (configuration : String) (flag : Parameter) : List String :=
  if c.turned configuration flag = [] then [] else flag.conditionalDeps

theorem mem_turned (hbuilt : c.IsBuilt) {user : String} :
    user ∈ c.turned configuration flag
      ↔ flag.isSet = false ∧ flag.conditionalDeps ≠ []
        ∧ ∃ m, c.module? user = some m ∧ m.enabled = true ∧ m.configuration = some configuration := by
  rw [turned, ← mem_owners hbuilt]
  split
  · next h => cases hset : flag.isSet <;> simp_all
  · next h => simp_all

theorem mem_demanded {dep : String} :
    dep ∈ c.demanded configuration flag
      ↔ dep ∈ flag.conditionalDeps ∧ ∃ user, user ∈ c.turned configuration flag := by
  rw [demanded]
  split
  · next h => simp [h]
  · next h => exact (and_iff_left (List.exists_mem_of_ne_nil _ h)).symm

theorem isQuiet_or_not_mem_owners {user : String} (h : user ∉ c.turned configuration flag) :
    (c.raise configuration name flag).IsQuiet configuration flag flag.raised
      ∨ user ∉ c.owners configuration := by
  unfold turned at h
  split at h
  · next hquiet =>
    refine .inl (hquiet.elim (fun hset => ?_) fun hdeps => .inr (.inl hdeps))
    have hraised := Parameter.isSet_raised (Parameter.type_of_isSet hset)
    exact .inr (.inr (.inr (hset.trans hraised.symm)))
  · exact .inr h

/-- What a word for true does to a flag and the modules that are bound to its header. -/
theorem step_setParameter_of_true (hflag : c.parameter configuration name = .ok flag)
    (htype : flag.type = .boolean) (hform : Parameter.booleanForm? value = some "1") :
    c.step (.setParameter configuration name value)
      = (((c.raise configuration name flag).refreshAll (c.turned configuration flag)).pull
          (c.demanded configuration flag)).1 := by
  have haccept : flag.accept (flag.valueList.bind c.lists.get?) value
      = .ok flag.raised := by
    simp only [Parameter.accept, htype, hform]
    rw [Parameter.raised, htype]
  have hset := Parameter.isSet_raised htype
  obtain ⟨⟨change, d⟩, hd⟩ := setParameter_of_ok hflag haccept
  obtain ⟨old, new, e, hold, hnew, rfl, hcases⟩ := setParameter_eq_ok hd
  rw [hflag, Except.ok.injEq] at hold
  subst hold
  rw [haccept, Except.ok.injEq] at hnew
  subst hnew
  have hstep : c.step (.setParameter configuration name value) = d := Update.leaves_of_ok hd
  rw [hstep]
  have howners : (c.withParameter configuration name flag.raised).owners configuration
      = c.owners configuration := rfl
  rcases hcases with ⟨hquiet, rfl⟩ | ⟨hloud, -, rfl⟩ | ⟨-, hunset, -⟩
  · have hnone : c.turned configuration flag = [] := by
      unfold turned
      rcases hquiet with hne | hdeps | hnone | hsame
      · exact absurd htype hne
      · exact if_pos (.inr hdeps)
      · rw [← howners, hnone, ite_self]
      · exact if_pos (.inl (hsame.trans hset))
    rw [demanded, hnone, if_pos rfl]
    simp [refreshAll, pull, raise]
  · obtain ⟨-, hdeps, hsome, hunset⟩ :
        flag.type = .boolean ∧ flag.conditionalDeps ≠ [] ∧ c.owners configuration ≠ []
          ∧ flag.isSet ≠ flag.raised.isSet := by
      simpa [IsQuiet, howners] using hloud
    have hturned : c.turned configuration flag = c.owners configuration :=
      if_neg (not_or.2 ⟨fun hon => hunset (hon.trans hset.symm), hdeps⟩)
    rw [demanded, hturned, howners, if_neg hsome, raise]
  · rw [hset] at hunset
    cases hunset

theorem declared_raise (hflag : c.parameter configuration name = .ok flag) :
    (c.raise configuration name flag).declared = c.declared :=
  declared_withParameter hflag rfl

theorem mem_effectiveDeps_raise (hflag : c.parameter configuration name = .ok flag)
    (htype : flag.type = .boolean) {user dep : String} :
    dep ∈ (c.raise configuration name flag).effectiveDeps user
      ↔ dep ∈ c.effectiveDeps user
        ∨ (∃ m, c.module? user = some m ∧ m.configuration = some configuration)
          ∧ dep ∈ flag.conditionalDeps := by
  have hdecl : flag.raised.declared = flag.declared := rfl
  exact mem_effectiveDeps_withParameter hflag hdecl (Parameter.isSet_raised htype)

theorem isEnabled_refreshAll (c : Catalog) (names : List String) (other : String) :
    (c.refreshAll names).isEnabled other = c.isEnabled other :=
  refreshAll_induction (P := fun d => d.isEnabled other = c.isEnabled other) (fun _ _ hd => hd)
    names rfl

theorem explicit_refreshAll (c : Catalog) (names : List String) :
    (c.refreshAll names).explicit = c.explicit :=
  refreshAll_induction (P := fun d => d.explicit = c.explicit) (fun _ _ hd => hd) names rfl

/-- Contributions that are current stay so: whatever a raised flag changes is refreshed. -/
theorem current_refreshAll_raise (hbuilt : c.IsBuilt)
    (hflag : c.parameter configuration name = .ok flag) {user : String} (hc : c.Current user) :
    ((c.raise configuration name flag).refreshAll (c.turned configuration flag)).Current user := by
  refine current_refreshAll.2 (or_iff_not_imp_left.2 fun hnot => hc.congr rfl ?_)
  exact bareFiles_withParameter hbuilt hflag rfl (isQuiet_or_not_mem_owners hnot)

end Catalog

end Configurator
