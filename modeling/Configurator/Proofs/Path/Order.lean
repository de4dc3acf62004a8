import Configurator.Path
import Configurator.Proofs.Sorting
import Mathlib.Tactic.ByContra

/-!
# The order of paths

Paths are in the order of their components, in which paths with the same components may stand either way.
Where files are read in this order and of those with the same components only the last one, leaving out
files that share their components with no other ones leaves out just these
(`Path.lastOfEach_mergeSort_filter`).
-/

namespace Configurator.Path

/-! ## Comparing -/

theorem Component.name_lt_iff {cs ds : List Char} :
    (Component.name cs).lt (.name ds) = true ↔ String.ofList cs < String.ofList ds :=
  decide_eq_true_iff

theorem Component.lt_trans {a b c : Component} (h : a.lt b = true) (h' : b.lt c = true) :
    a.lt c = true := by
  cases a <;> cases b <;> cases c
  case name.name.name =>
    exact name_lt_iff.2 (String.lt_trans (name_lt_iff.1 h) (name_lt_iff.1 h'))
  all_goals simp_all [Component.lt]

theorem Component.lt_asymm {a b : Component} (h : a.lt b = true) : b.lt a = false := by
  cases a <;> cases b
  case name.name =>
    refine Bool.eq_false_iff.2 fun h' => ?_
    exact String.lt_irrefl _ (String.lt_trans (name_lt_iff.1 h) (name_lt_iff.1 h'))
  all_goals simp_all [Component.lt]

theorem Component.lt_total {a b : Component} (h : a ≠ b) : a.lt b = true ∨ b.lt a = true := by
  cases a <;> cases b
  case name.name cs ds =>
    rw [name_lt_iff, name_lt_iff]
    have hne : String.ofList cs ≠ String.ofList ds := fun heq =>
      h (congrArg Component.name (String.ofList_inj.1 heq))
    by_contra hnot
    rw [not_or] at hnot
    exact hne (String.le_antisymm (String.not_lt.1 hnot.2) (String.not_lt.1 hnot.1))
  all_goals simp_all [Component.lt]

variable {as bs cs : List Component}

theorem componentsLe_cons_iff {a b : Component} :
    componentsLe (a :: as) (b :: bs) = true ↔ a.lt b = true ∨ a = b ∧ componentsLe as bs = true := by
  simp [componentsLe]

theorem componentsLe_total (as bs : List Component) :
    componentsLe as bs = true ∨ componentsLe bs as = true := by
  induction as generalizing bs with
  | nil => exact .inl rfl
  | cons a as ih =>
      cases bs with
      | nil => exact .inr rfl
      | cons b bs =>
          rw [componentsLe_cons_iff, componentsLe_cons_iff]
          by_cases hab : a = b
          · exact (ih bs).imp (fun h => .inr ⟨hab, h⟩) fun h => .inr ⟨hab.symm, h⟩
          · exact (Component.lt_total hab).imp .inl .inl

theorem componentsLe_trans (h : componentsLe as bs = true) (h' : componentsLe bs cs = true) :
    componentsLe as cs = true := by
  induction as generalizing bs cs with
  | nil => rfl
  | cons a as ih =>
      cases bs with
      | nil => cases h
      | cons b bs =>
          cases cs with
          | nil => cases h'
          | cons c cs =>
              rw [componentsLe_cons_iff] at h h' ⊢
              rcases h with hab | ⟨rfl, h⟩ <;> rcases h' with hbc | ⟨rfl, h'⟩
              · exact .inl (Component.lt_trans hab hbc)
              · exact .inl hab
              · exact .inl hbc
              · exact .inr ⟨rfl, ih h h'⟩

theorem componentsLe_antisymm (h : componentsLe as bs = true) (h' : componentsLe bs as = true) :
    as = bs := by
  induction as generalizing bs with
  | nil =>
      cases bs with
      | nil => rfl
      | cons b bs => cases h'
  | cons a as ih =>
      cases bs with
      | nil => cases h
      | cons b bs =>
          rw [componentsLe_cons_iff] at h h'
          rcases h with hab | ⟨rfl, h⟩
          · rcases h' with hba | ⟨rfl, -⟩
            · simp [Component.lt_asymm hab] at hba
            · simp [Component.lt_asymm hab] at hab
          · rcases h' with haa | ⟨-, h'⟩
            · simp [Component.lt_asymm haa] at haa
            · rw [ih h h']

theorem le_trans (a b c : String) (h : le a b = true) (h' : le b c = true) : le a c = true :=
  componentsLe_trans h h'

theorem le_total (a b : String) : (le a b || le b a) = true :=
  Bool.or_eq_true_iff.2 (componentsLe_total _ _)

theorem le_of_components_eq {a b : String} (h : components a = components b) : le a b = true := by
  rw [le, h]
  exact (componentsLe_total _ _).elim id id

/-! ## The last of each -/

variable {path : String} {paths : List String}

theorem lastOfEach_subset (paths : List String) : lastOfEach paths ⊆ paths := by
  induction paths with
  | nil => exact List.nil_subset _
  | cons path paths ih =>
      cases paths with
      | nil => exact fun _ h => h
      | cons next paths =>
          unfold lastOfEach
          split
          · exact fun p hp => List.mem_cons_of_mem _ (ih hp)
          · exact List.cons_subset_cons _ ih

/-- Whether one path comes before another that has other components. -/
def Before (a b : String) : Prop :=
  le a b = true ∧ components a ≠ components b

theorem before_of_cons {next : String} (h : (path :: next :: paths).Pairwise fun a b => le a b = true)
    (hne : components path ≠ components next) : ∀ other ∈ next :: paths, Before path other := by
  obtain ⟨hpath, hrest⟩ := List.pairwise_cons.1 h
  intro other hother
  refine ⟨hpath other hother, fun heq => hne ?_⟩
  have hnext : le next other = true := by
    rcases List.mem_cons.1 hother with rfl | hother
    · exact le_of_components_eq rfl
    · exact (List.pairwise_cons.1 hrest).1 other hother
  refine componentsLe_antisymm (hpath next List.mem_cons_self) ?_
  rw [heq]
  exact hnext

theorem pairwise_lastOfEach (h : paths.Pairwise fun a b => le a b = true) :
    (lastOfEach paths).Pairwise Before := by
  induction paths with
  | nil => exact .nil
  | cons path paths ih =>
      cases paths with
      | nil => exact List.pairwise_singleton _ _
      | cons next paths =>
          unfold lastOfEach
          split
          · exact ih (List.pairwise_cons.1 h).2
          · next hne =>
            refine List.pairwise_cons.2 ⟨fun other hother => ?_, ih (List.pairwise_cons.1 h).2⟩
            exact before_of_cons h hne other (lastOfEach_subset _ hother)

/-- Of sorted paths those stay that are the last with their components. -/
theorem mem_lastOfEach_iff (h : paths.Pairwise fun a b => le a b = true) :
    path ∈ lastOfEach paths
      ↔ (paths.filter (components · = components path)).getLast? = some path := by
  have hpos : ∀ {first} (rest : List String), components first = components path →
      (first :: rest).filter (components · = components path)
        = first :: rest.filter (components · = components path) :=
    fun _ hpath => List.filter_cons_of_pos (decide_eq_true hpath)
  have hneg : ∀ {first} (rest : List String), components first ≠ components path →
      (first :: rest).filter (components · = components path)
        = rest.filter (components · = components path) :=
    fun _ hpath => List.filter_cons_of_neg (by simpa using hpath)
  have hown : ∀ {first}, components first ≠ components path → path ≠ first :=
    fun hpath heq => hpath (by rw [heq])
  induction paths with
  | nil => simp [lastOfEach]
  | cons first paths ih =>
      cases paths with
      | nil =>
          by_cases hpath : components first = components path
          · rw [hpos [] hpath]
            simp [lastOfEach, eq_comm]
          · rw [hneg [] hpath]
            simp [lastOfEach, hown hpath]
      | cons next paths =>
          have hrest : path ∈ lastOfEach (next :: paths)
              ↔ ((next :: paths).filter (components · = components path)).getLast? = some path :=
            ih (List.pairwise_cons.1 h).2
          unfold lastOfEach
          by_cases hsame : components first = components next
          · rw [if_pos hsame, hrest]
            by_cases hpath : components first = components path
            · -- the next path has these components as well
              rw [hpos _ hpath, hpos _ (hsame.symm.trans hpath), List.getLast?_cons_cons]
            · rw [hneg _ hpath]
          · rw [if_neg hsame, List.mem_cons, hrest]
            by_cases hpath : components first = components path
            · have hnone : (next :: paths).filter (components · = components path) = [] := by
                refine List.filter_eq_nil_iff.2 fun other hother heq => ?_
                exact (before_of_cons h hsame other hother).2 (hpath.trans (of_decide_eq_true heq).symm)
              rw [hpos _ hpath, hnone]
              simp [eq_comm]
            · rw [hneg _ hpath, or_iff_right (hown hpath)]

/-- Paths that share their components with no others can be left out before sorting or afterwards. -/
theorem lastOfEach_mergeSort_filter {p : String → Bool}
    (hp : ∀ a ∈ paths, ∀ b ∈ paths, components a = components b → p a = p b) :
    lastOfEach ((paths.filter p).mergeSort le) = (lastOfEach (paths.mergeSort le)).filter p := by
  have hsorted : ∀ ps : List String, (lastOfEach (ps.mergeSort le)).Pairwise Before := fun ps =>
    pairwise_lastOfEach (List.pairwise_mergeSort le_trans le_total ps)
  have hmem : ∀ (ps : List String) path, path ∈ lastOfEach (ps.mergeSort le)
      ↔ (ps.filter (components · = components path)).getLast? = some path := by
    intro ps path
    rw [mem_lastOfEach_iff (List.pairwise_mergeSort le_trans le_total ps),
      filter_mergeSort le_trans le_total fun a b ha hb => le_of_components_eq ?_]
    exact (of_decide_eq_true ha).trans (of_decide_eq_true hb).symm
  -- all with the components of a path that stays, stay
  have hstay : ∀ path ∈ paths, p path = true → (paths.filter p).filter (components · = components path)
      = paths.filter (components · = components path) := by
    intro path hpath hkept
    rw [List.filter_filter]
    refine List.filter_congr fun other hother => ?_
    by_cases heq : components other = components path
    · simp [heq, hp other hother path hpath heq, hkept]
    · simp [heq]
  have hsame : ∀ path, path ∈ lastOfEach ((paths.filter p).mergeSort le)
      ↔ path ∈ (lastOfEach (paths.mergeSort le)).filter p := by
    intro path
    rw [List.mem_filter, hmem, hmem]
    constructor
    · intro hlast
      obtain ⟨hpath, hkept⟩ := List.mem_filter.1 (List.mem_filter.1 (List.mem_of_getLast? hlast)).1
      exact ⟨by rwa [hstay path hpath hkept] at hlast, hkept⟩
    · rintro ⟨hlast, hkept⟩
      rwa [hstay path (List.mem_filter.1 (List.mem_of_getLast? hlast)).1 hkept]
  have hnodup : ∀ ps : List String, ps.Pairwise Before → ps.Nodup := fun ps h =>
    h.imp fun hbefore heq => hbefore.2 (by rw [heq])
  have hleft := hsorted (paths.filter p)
  have hright := (hsorted paths).filter p
  refine List.Perm.eq_of_pairwise (fun a b _ _ hab hba => ?_) hleft hright
    ((List.perm_ext_iff_of_nodup (hnodup _ hleft) (hnodup _ hright)).2 hsame)
  exact absurd (componentsLe_antisymm hab.1 hba.1) hab.2

end Configurator.Path
