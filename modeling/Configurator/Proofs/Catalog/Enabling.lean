import Mathlib.Logic.Relation
import Configurator.Proofs.Catalog.Closure
import Configurator.Proofs.Catalog.References

/-!
# What selecting a module does

Selecting a module enables the modules that it lacks, directly or through others that are lacking
(`select_spec`). This takes no assumption on the catalogue: dependencies may go round in cycles, and what
was enabled before may lack something as well, which the walk does not look at.

One direction is an induction over the walk, which only goes from a module to what it lacks. The other
is one over a path of lacking modules: the walk enables all that the modules which it adds depend on, and
what was not enabled before is among the names that it reports.
-/

namespace Configurator.Catalog

variable {c d : Catalog} {name other : String}

/-! ## Lacking modules -/

/-- Whether a module depends on one that is not enabled. -/
def Lacks (c : Catalog) (user dep : String) : Prop :=
  dep ∈ c.effectiveDeps user ∧ c.isModule dep = true ∧ c.isEnabled dep = false

/-- The walk adds what is listed and not enabled, and whatever that lacks in turn. -/
theorem mem_pull_iff {todo : List String} :
    name ∈ (c.pull todo).2
      ↔ ∃ first ∈ todo, c.isModule first = true ∧ c.isEnabled first = false
          ∧ Relation.ReflTransGen c.Lacks first name := by
  have hadded : ∀ n, c.isModule n = true → c.isEnabled n = false →
      (n ∈ todo ∨ ∃ user ∈ (c.pull todo).2, n ∈ c.effectiveDeps user) → n ∈ (c.pull todo).2 := by
    intro n hmod hoff hreason
    refine ((isEnabled_pull c todo n).1 (isEnabled_pull_of_mem hmod hreason)).resolve_left ?_
    rw [hoff]
    exact Bool.false_ne_true
  constructor
  · intro h
    have hpath := pull_mem_induction
      (P := fun n => c.isModule n = true → c.isEnabled n = false →
        ∃ first ∈ todo, c.isModule first = true ∧ c.isEnabled first = false
          ∧ Relation.ReflTransGen c.Lacks first n)
      (fun n hn hmod hoff => ⟨n, hn, hmod, hoff, .refl⟩)
      (fun user hP husermod huseroff dep hdep hmod hoff => by
        obtain ⟨first, hfirst, hfirstmod, hfirstoff, huser⟩ := hP husermod huseroff
        exact ⟨first, hfirst, hfirstmod, hfirstoff, huser.tail ⟨hdep, hmod, hoff⟩⟩)
      name h
    exact hpath.1 hpath.2.1 hpath.2.2
  · rintro ⟨first, hfirst, hmod, hoff, hpath⟩
    induction hpath with
    | refl => exact hadded first hmod hoff (.inl hfirst)
    | @tail user dep _ hlacks huser => exact hadded dep hlacks.2.1 hlacks.2.2 (.inr ⟨user, huser, hlacks.1⟩)

/-! ## Selecting -/

/-- Once a module is enabled, it is no more lacking itself. -/
theorem lacks_switchOn_askFor (hname : c.isModule name = true) {user dep : String} :
    ((c.askFor name).switchOn name).Lacks user dep ↔ c.Lacks user dep ∧ dep ≠ name := by
  have hgraph := sameGraph_switchOn_askFor c name
  have hon : ((c.askFor name).switchOn name).isEnabled dep
      = if dep = name then c.isModule dep else c.isEnabled dep := isEnabled_switchOn _ name dep
  rw [Lacks, Lacks, hgraph.effectiveDeps user, hgraph.isModule dep, hon]
  by_cases hdep : dep = name
  · subst hdep
    simp [hname]
  · simp [hdep]

/-- Selecting pulls in what the module lacks, directly or through others that are lacking. -/
theorem mem_enable_iff (hname : c.isModule name = true) :
    other ∈ (c.enable name).2
      ↔ Relation.TransGen (fun user dep => c.Lacks user dep ∧ dep ≠ name) name other := by
  have hlacks : ((c.askFor name).switchOn name).Lacks
      = fun user dep => c.Lacks user dep ∧ dep ≠ name := by
    funext user dep
    exact propext (lacks_switchOn_askFor hname)
  rw [← hlacks, Relation.TransGen.head'_iff]
  refine mem_pull_iff.trans (exists_congr fun first => ?_)
  rw [Lacks, and_assoc, and_assoc]

/-- What selecting a module does to a catalogue, with the names that it reports. -/
structure Selects (c : Catalog) (name : String) (added : List String) (d : Catalog) : Prop where
  enabled : ∀ other, d.isEnabled other = true
    ↔ c.isEnabled other = true ∨ other = name
      ∨ Relation.TransGen (fun user dep => c.Lacks user dep ∧ dep ≠ name) name other
  mem_added : ∀ other, other ∈ added
    ↔ d.isEnabled other = true ∧ c.isEnabled other = false ∧ other ≠ name
  nodup : added.Nodup
  /-- Each is there for the module itself or for one that was reported before it. -/
  order : ∀ before other behind, added = before ++ other :: behind →
    ∃ user ∈ name :: before, other ∈ c.effectiveDeps user
  explicit : d.explicit = c.explicit.insert name
  headers : d.headers = c.headers

theorem selects_enable (hname : c.isModule name = true) :
    c.Selects name (c.enable name).2 (c.enable name).1 := by
  have hgraph := sameGraph_switchOn_askFor c name
  have henabled := isEnabled_enable_iff hname
  refine ⟨fun other => ?_, fun other => ?_, nodup_pull _ _, fun before other behind hsplit => ?_,
    explicit_enable c name, (sameGraph_enable c name).headers⟩
  · rw [henabled other, mem_enable_iff hname]
  · constructor
    · intro hmem
      obtain ⟨user, -, ⟨-, -, hoff⟩, hne⟩ := Relation.TransGen.tail'_iff.1 ((mem_enable_iff hname).1 hmem)
      exact ⟨(henabled other).2 (.inr (.inr hmem)), hoff, hne⟩
    · rintro ⟨hon, hoff, hne⟩
      rcases (henabled other).1 hon with hbefore | heq | hmem
      · rw [hoff] at hbefore
        cases hbefore
      · exact absurd heq hne
      · exact hmem
  · rcases exists_user_before_of_pull before behind hsplit with hdep | ⟨user, huser, hdep⟩
    · exact ⟨name, List.mem_cons_self, by rwa [← hgraph.effectiveDeps name]⟩
    · exact ⟨user, List.mem_cons_of_mem _ huser, by rwa [← hgraph.effectiveDeps user]⟩

/-- Selecting a module always succeeds and enables exactly the module and what it lacks; it reports
what else it enabled, each name once and behind one that depends on it. Selecting anything else fails
and leaves the catalogue as it was. -/
theorem select_spec (c : Catalog) (name : String) :
    (c.isModule name = true → ∃ added d, c.select name = .ok (⟨name, added⟩, d)
        ∧ c.Selects name added d)
      ∧ (c.isModule name = false → c.select name = .error (.unknownModule name)
        ∧ c.step (.select name) = c) := by
  constructor
  · intro hname
    exact ⟨_, _, select_of_isModule hname, selects_enable hname⟩
  · intro hname
    have hfails := select_of_not_isModule hname
    exact ⟨hfails, (Update.checksFirst_select name).leaves_of_error hfails⟩

/-- Three modules that depend on each other in a ring, one of them on itself as well, and a fourth that
they need. -/
def ringModules : List Module :=
  [moduleOn "usb" ["phy", "usb"] none, moduleOn "phy" ["pll.c", "clock"] none,
    moduleOn "clock" ["gpio", "usb"] none, moduleOn "gpio" [] none]

/-- With `gpio` enabled, `usb` lacks `phy` and through it `clock`, and there is no module `can`. -/
theorem select_spec_ring :
    let c := (build "" ringModules [] []).run [.select "gpio"]
    (c.isModule "usb" = true ∧ ∃ added d, c.select "usb" = .ok (⟨"usb", added⟩, d)
        ∧ c.Selects "usb" added d)
      ∧ c.isModule "can" = false ∧ c.select "can" = .error (.unknownModule "can")
        ∧ c.step (.select "can") = c := by
  intro c
  have husb : c.isModule "usb" = true := by
    rw [isModule_congr (declared_run _ _)]
    decide +kernel
  have hcan : c.isModule "can" = false := by
    rw [isModule_congr (declared_run _ _)]
    decide +kernel
  exact ⟨⟨husb, (select_spec c "usb").1 husb⟩, hcan, (select_spec c "can").2 hcan⟩

end Configurator.Catalog
