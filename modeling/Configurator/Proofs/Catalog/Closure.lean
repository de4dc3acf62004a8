import Configurator.Proofs.Catalog.Enabled

/-!
# What modules need

`Needed c names` are the modules among some names and all that they depend on, from dependency to
dependency. A catalogue is closed when all that its enabled modules depend on is enabled. From a closed
catalogue, selecting a module enables exactly what it needs, and the catalogue is closed again.
-/

namespace Configurator.Catalog

variable {c d : Catalog}

/-! ## Needs -/

/-- The modules among some names, and the modules that those depend on. -/
inductive Needed (c : Catalog) (names : List String) : String → Prop
  | listed {name : String} : name ∈ names → c.isModule name = true → Needed c names name
  | depended {user dep : String} : Needed c names user → dep ∈ c.effectiveDeps user →
      c.isModule dep = true → Needed c names dep

/-- Whatever an enabled module depends on is enabled, if it is a module. -/
def Closed (c : Catalog) : Prop :=
  ∀ user, c.isEnabled user = true → ∀ dep ∈ c.effectiveDeps user,
    c.isModule dep = true → c.isEnabled dep = true

namespace Needed

variable {names : List String} {name : String}

theorem mono {more : List String} (h : Needed c names name) (hsub : ∀ n ∈ names, n ∈ more) :
    Needed c more name := by
  induction h with
  | listed hmem hmod => exact .listed (hsub _ hmem) hmod
  | depended _ hdep hmod ih => exact .depended ih hdep hmod

theorem of_sameGraph (hgraph : SameGraph c d) (h : Needed c names name) : Needed d names name := by
  induction h with
  | listed hmem hmod => exact .listed hmem (by rwa [← hgraph.isModule])
  | depended _ hdep hmod ih =>
      exact .depended ih (by rwa [← hgraph.effectiveDeps]) (by rwa [← hgraph.isModule])

/-- What a list needs is what its members need. -/
theorem cons_iff {first : String} :
    Needed c (first :: names) name ↔ Needed c [first] name ∨ Needed c names name := by
  constructor
  · intro h
    induction h with
    | listed hmem hmod =>
        rcases List.mem_cons.1 hmem with rfl | hmem
        · exact .inl (.listed (List.mem_singleton.2 rfl) hmod)
        · exact .inr (.listed hmem hmod)
    | depended _ hdep hmod ih =>
        rcases ih with ih | ih
        · exact .inl (.depended ih hdep hmod)
        · exact .inr (.depended ih hdep hmod)
  · rintro (h | h)
    · exact h.mono fun n hn => by simp_all
    · exact h.mono fun n hn => List.mem_cons_of_mem _ hn

theorem isModule (h : Needed c names name) : c.isModule name = true := by
  cases h with
  | listed _ hmod => exact hmod
  | depended _ _ hmod => exact hmod

theorem not_nil : ¬ Needed c [] name := by
  intro h
  induction h with
  | listed hmem _ => simp at hmem
  | depended _ _ _ ih => exact ih

end Needed

/-- A closed set of modules that holds the listed ones holds all that they need. -/
theorem needed_induction {P : String → Prop} {names : List String} {name : String}
    (hlist : ∀ n ∈ names, c.isModule n = true → P n)
    (hdeps : ∀ user, P user → ∀ dep ∈ c.effectiveDeps user, c.isModule dep = true → P dep)
    (h : Needed c names name) : P name := by
  induction h with
  | listed hmem hmod => exact hlist _ hmem hmod
  | depended _ hdep hmod ih => exact hdeps _ ih _ hdep hmod

/-! ## Enabling from a closed catalogue -/

theorem isEnabled_enable_self {name : String} (hname : c.isModule name = true) :
    (c.enable name).1.isEnabled name = true := by
  refine (isEnabled_pull _ _ name).2 (.inl ?_)
  rw [isEnabled_switchOn, if_pos rfl]
  exact hname

theorem isEnabled_enable_of_isEnabled {name other : String} (h : c.isEnabled other = true) :
    (c.enable name).1.isEnabled other = true :=
  (isEnabled_pull _ _ other).2 (.inl (isEnabled_switchOn_of_isEnabled (c := c.askFor name) h))

theorem explicit_pull (c : Catalog) (todo : List String) :
    (c.pull todo).1.explicit = c.explicit :=
  pull_induction (P := fun d => d.explicit = c.explicit) (fun _ _ hd => hd) todo rfl

theorem explicit_enable (c : Catalog) (name : String) :
    (c.enable name).1.explicit = c.explicit.insert name :=
  explicit_pull _ _

theorem isEnabled_enable_iff {name : String} (hname : c.isModule name = true) (other : String) :
    (c.enable name).1.isEnabled other = true
      ↔ c.isEnabled other = true ∨ other = name ∨ other ∈ (c.enable name).2 := by
  have hon : ((c.askFor name).switchOn name).isEnabled other
      = if other = name then c.isModule other else c.isEnabled other := isEnabled_switchOn _ name other
  refine (isEnabled_pull _ _ other).trans ?_
  rw [hon, ← or_assoc]
  refine or_congr_left ?_
  by_cases hother : other = name
  · simp [hother, hname]
  · simp [hother]

/-- Selecting a module of a closed catalogue leaves it closed. -/
theorem Closed.enable (hc : c.Closed) (name : String) : (c.enable name).1.Closed := by
  intro user huser dep hdep hmod
  have hgraph := sameGraph_enable c name
  rw [hgraph.effectiveDeps user] at hdep
  rw [hgraph.isModule dep] at hmod
  have hinner := sameGraph_switchOn_askFor c name
  have hinner' := hmod
  rw [← hinner.isModule dep] at hinner'
  rcases (isEnabled_pull _ _ user).1 huser with huser | huser
  · rw [isEnabled_switchOn] at huser
    by_cases heq : user = name
    · subst heq
      exact isEnabled_pull_of_mem hinner' (.inl (by rwa [hinner.effectiveDeps user]))
    · rw [if_neg heq] at huser
      exact isEnabled_enable_of_isEnabled (hc user huser dep hdep hmod)
  · exact isEnabled_pull_of_mem hinner' (.inr ⟨user, huser, by rwa [hinner.effectiveDeps user]⟩)

/-- Selecting a module of a closed catalogue enables what it needs, and nothing else. -/
theorem isEnabled_enable (hc : c.Closed) {name : String} (hname : c.isModule name = true)
    (other : String) :
    (c.enable name).1.isEnabled other = true
      ↔ c.isEnabled other = true ∨ Needed c [name] other := by
  have hinner := sameGraph_switchOn_askFor c name
  have hself : Needed c [name] name := .listed (List.mem_singleton.2 rfl) hname
  constructor
  · intro h
    rcases (isEnabled_pull _ _ other).1 h with h | h
    · rw [isEnabled_switchOn] at h
      by_cases heq : other = name
      · exact .inr (heq ▸ hself)
      · rw [if_neg heq] at h
        exact .inl h
    · have hadded := pull_mem_induction
        (P := fun n => c.isModule n = true → Needed c [name] n)
        (fun dep hdep hmod => .depended hself (by rwa [← hinner.effectiveDeps name]) hmod)
        (fun user hneed husermod _ dep hdep hmod =>
          .depended (hneed (by rwa [← hinner.isModule user]))
            (by rwa [← hinner.effectiveDeps user]) hmod)
        other h
      exact .inr (hadded.1 (by rw [← hinner.isModule other]; exact hadded.2.1))
  · rintro (h | h)
    · exact isEnabled_enable_of_isEnabled h
    · have hgraph := sameGraph_enable c name
      refine needed_induction (P := fun n => (c.enable name).1.isEnabled n = true) ?_ ?_ h
      · intro n hn _
        rw [List.mem_singleton.1 hn]
        exact isEnabled_enable_self hname
      · intro user huser dep hdep hmod
        exact hc.enable name user huser dep (by rwa [hgraph.effectiveDeps])
          (by rwa [hgraph.isModule])

end Configurator.Catalog
