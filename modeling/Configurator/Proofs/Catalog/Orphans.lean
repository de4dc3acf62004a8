import Configurator.Proofs.Catalog.Closure
import Configurator.Proofs.Catalog.Dependents
import Mathlib.Order.WellFoundedSet

/-!
# The search for orphans

A module is idle when it is enabled without having been asked for, and nothing that counts depends on
it. The search takes idle modules out in turn, and what they depend on becomes a candidate as well. What
it finds is described without its rounds: each module was idle apart from those found before it
(`IdleInTurn`), and in the end no candidate is idle (`isIdle_orphansOf`).
-/

namespace Configurator.Catalog

variable {c d : Catalog}

/-! ## Idle modules -/

/-- A name is required by the enabled modules that depend on it. -/
theorem isRequired_iff (hbuilt : c.IsBuilt) {name : String} {ignoring : List String} :
    c.isRequired name ignoring = true
      ↔ ∃ user, c.isEnabled user = true ∧ user ∉ ignoring ∧ name ∈ c.effectiveDeps user := by
  simp only [isRequired, isLive, Bool.or_eq_true, List.any_eq_true, Bool.and_eq_true,
    decide_eq_true_eq, hbuilt.mem_effectiveDeps_iff_dependent]
  constructor
  · rintro (⟨user, huser, hon, hnot⟩ | ⟨gate, hgate, ⟨hon, hnot⟩, hset⟩)
    · exact ⟨user, hon, hnot, .inl huser⟩
    · exact ⟨gate.module, hon, hnot, .inr ⟨gate, hgate, rfl, hset⟩⟩
  · rintro ⟨user, hon, hnot, huser | ⟨gate, hgate, rfl, hset⟩⟩
    · exact .inl ⟨user, huser, hon, hnot⟩
    · exact .inr ⟨gate, hgate, ⟨hon, hnot⟩, hset⟩

theorem isIdle_iff (hbuilt : c.IsBuilt) {name : String} {ignoring : List String} :
    c.isIdle ignoring name = true
      ↔ name ∉ ignoring ∧ c.isEnabled name = true ∧ name ∉ c.explicit
        ∧ ∀ user, c.isEnabled user = true → user ∉ ignoring → name ∉ c.effectiveDeps user := by
  have hrequired : c.isRequired name ignoring = false
      ↔ ∀ user, c.isEnabled user = true → user ∉ ignoring → name ∉ c.effectiveDeps user := by
    rw [← Bool.not_eq_true, isRequired_iff hbuilt]
    push Not
    rfl
  simp only [isIdle, isExplicit, Bool.and_eq_true, Bool.not_eq_true', decide_eq_true_eq, hrequired,
    NameSet.mem_iff, Bool.not_eq_true, and_assoc]

/-! ## The search -/

/-- Whether each of some modules is idle apart from those before it. -/
inductive IdleInTurn (c : Catalog) : List String → Prop
  | nil : IdleInTurn c []
  | append {released : List String} {name : String} : IdleInTurn c released →
      c.isIdle released name = true → IdleInTurn c (released ++ [name])

theorem IdleInTurn.sweep {candidates released todo : List String} {progress : Bool}
    (h : c.IdleInTurn released) : c.IdleInTurn (c.sweep candidates released progress todo) := by
  fun_induction Catalog.sweep c candidates released progress todo with
  | case1 candidates released ih => exact ih h
  | case2 candidates released => exact h
  | case3 candidates released progress name todo hidle new ih => exact ih (h.append hidle)
  | case4 candidates released progress name todo hidle ih => exact ih h

theorem mem_newCandidates {candidates deps : List String} {name : String} :
    name ∈ candidates ++ deps.foldl (fun new dep =>
        if dep ∈ candidates then new else addNew new dep) []
      ↔ name ∈ candidates ∨ name ∈ deps := by
  have key : ∀ new : List String,
      name ∈ candidates ++ deps.foldl (fun new dep =>
          if dep ∈ candidates then new else addNew new dep) new
        ↔ name ∈ candidates ++ new ∨ name ∈ deps := by
    induction deps with
    | nil => simp
    | cons dep deps ih =>
        intro new
        rw [List.foldl_cons, ih, List.mem_cons]
        split
        · next hdep =>
          simp only [List.mem_append]
          constructor
          · rintro (h | h)
            · exact .inl h
            · exact .inr (.inr h)
          · rintro (h | rfl | h)
            · exact .inl h
            · exact .inl (.inl hdep)
            · exact .inr h
        · simp only [List.mem_append, mem_addNew]
          tauto
  simpa using key []

/-- A search ends when a whole round has found no candidate idle. Until something is found in a round,
the candidates that it has seen are not idle; what was found before has its dependencies among the
candidates. -/
theorem isIdle_sweep {candidates released todo : List String} {progress : Bool}
    (hseen : progress = false → ∀ name ∈ candidates, name ∈ todo ∨ c.isIdle released name = false)
    (hdeps : ∀ user ∈ released, ∀ dep ∈ c.effectiveDeps user, c.isModule dep = true →
      dep ∈ candidates)
    {name : String}
    (hname : name ∈ candidates ∨ ∃ user ∈ c.sweep candidates released progress todo,
      name ∈ c.effectiveDeps user ∧ c.isModule name = true) :
    c.isIdle (c.sweep candidates released progress todo) name = false := by
  fun_induction Catalog.sweep c candidates released progress todo with
  | case1 candidates released ih => exact ih (fun _ name hname => .inl hname) hdeps hname
  | case2 candidates released progress hprogress =>
      have hmem : name ∈ candidates := by
        rcases hname with hname | ⟨user, huser, hdep, hmod⟩
        · exact hname
        · exact hdeps user huser name hdep hmod
      exact (hseen (by simpa using hprogress) name hmem).resolve_left (by simp)
  | case3 candidates released progress first todo hidle new ih =>
      refine ih (fun h => by cases h) ?_ ?_
      · intro user huser dep hdep hmod
        refine mem_newCandidates.2 ?_
        rcases List.mem_append.1 huser with huser | huser
        · exact .inl (hdeps user huser dep hdep hmod)
        · rw [List.mem_singleton.1 huser] at hdep
          exact .inr (List.mem_filter.2 ⟨hdep, hmod⟩)
      · exact hname.imp_left (List.mem_append_left _)
  | case4 candidates released progress first todo hidle ih =>
      refine ih (fun hprogress other hother => ?_) hdeps hname
      rcases hseen hprogress other hother with hother | hother
      · rcases List.mem_cons.1 hother with rfl | hother
        · exact .inr (by simpa using hidle)
        · exact .inl hother
      · exact .inr hother

theorem idleInTurn_orphansOf (c : Catalog) (candidates : List String) :
    c.IdleInTurn (c.orphansOf candidates) :=
  IdleInTurn.sweep .nil

/-- In the end no candidate is idle, and no module that one of the orphans depends on. -/
theorem isIdle_orphansOf {candidates : List String} {name : String}
    (hname : name ∈ candidates ∨ ∃ user ∈ c.orphansOf candidates,
      name ∈ c.effectiveDeps user ∧ c.isModule name = true) :
    c.isIdle (c.orphansOf candidates) name = false :=
  isIdle_sweep (fun _ _ h => .inl h) (by simp) hname

theorem mem_dependenciesOf {names : List String} {name : String} :
    name ∈ c.dependenciesOf names
      ↔ (∃ user ∈ names, name ∈ c.effectiveDeps user) ∧ c.isModule name = true := by
  simp only [dependenciesOf, mem_foldl_addNew, List.not_mem_nil, false_or, List.mem_filter,
    List.mem_flatMap]

/-! ## Acyclic graphs -/

/-- One module depends on another. -/
def DependsOn (c : Catalog) (user dep : String) : Prop :=
  dep ∈ c.effectiveDeps user ∧ c.isModule dep = true

/-- Whether no module depends on itself, directly or from dependency to dependency. -/
def Acyclic (c : Catalog) : Prop :=
  ∀ name, ¬ Relation.TransGen c.DependsOn name name

/-- There are finitely many modules, so one can go up from dependencies to users only so far. -/
theorem Acyclic.wellFounded (hc : c.Acyclic) : WellFounded c.DependsOn := by
  let closure := Relation.TransGen c.DependsOn
  have horder : IsStrictOrder String closure :=
    { irrefl := hc, trans := fun _ _ _ => Relation.TransGen.trans }
  have hmodule : ∀ {user dep}, c.DependsOn user dep → user ∈ c.modules.keys ∧ dep ∈ c.modules.keys := by
    intro user dep h
    obtain ⟨m, hm, -⟩ := mem_effectiveDeps_iff.1 h.1
    exact ⟨NameMap.mem_keys_iff.2 (isModule_iff.2 ⟨m, hm⟩), NameMap.mem_keys_iff.2 h.2⟩
  have hfinite : Set.WellFoundedOn {name | name ∈ c.modules.keys} closure :=
    (List.finite_toSet c.modules.keys).wellFoundedOn
  refine Subrelation.wf (fun {user dep} h => ?_) (Set.wellFoundedOn_iff.1 hfinite)
  exact ⟨.single h, hmodule h⟩

end Configurator.Catalog
