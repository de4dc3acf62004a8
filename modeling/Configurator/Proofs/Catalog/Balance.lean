import Configurator.Proofs.Catalog.Operation
import Mathlib.Algebra.BigOperators.Group.Finset.Basic
import Mathlib.Algebra.GroupWithZero.Nat

/-!
# Counts of bare files

A catalogue counts how often the enabled modules depend on each bare file, and records for each module
what it contributed to the counts. The counts change by putting one contribution in place of the
previous one, and so they always add up to the contributions (`Balanced`), whatever is done and
whether or not the contributions are up to date.
-/

namespace Configurator

/-! ## Sums over maps -/

namespace NameMap

variable {α β : Type} {m n : NameMap α}

/-- The sum of a measure over the values of a map. -/
def total (measure : α → Nat) (m : NameMap α) : Nat :=
  (m.values.map measure).sum

theorem total_eq_sum (measure : α → Nat) {names : Finset String}
    (hnames : ∀ name ∈ m.keys, name ∈ names) :
    m.total measure = ∑ name ∈ names, (m.get? name).elim 0 measure := by
  have hnodup : m.keys.Nodup := by
    refine m.sorted_keys.imp fun {a b} hlt heq => ?_
    rw [heq] at hlt
    exact String.lt_irrefl b hlt
  have hvalues : m.values.map measure = m.keys.map fun name => (m.get? name).elim 0 measure := by
    rw [values, keys, List.map_map, List.map_map]
    refine List.map_congr_left fun e he => ?_
    simp [get?_eq_some_iff.2 he]
  rw [total, hvalues, ← List.sum_toFinset _ hnodup]
  refine Finset.sum_subset (fun name hname => hnames name (List.mem_toFinset.1 hname)) ?_
  intro name _ hname
  rw [List.mem_toFinset, mem_keys_iff, Option.not_isSome_iff_eq_none] at hname
  rw [hname]
  rfl

/-- Maps whose values have the same measure at each name have the same total. -/
theorem total_congr {f : α → Nat} {g : β → Nat} {n : NameMap β}
    (h : ∀ name, (m.get? name).elim 0 f = (n.get? name).elim 0 g) : m.total f = n.total g := by
  have hm : ∀ name ∈ m.keys, name ∈ (m.keys ++ n.keys).toFinset := by simp +contextual
  have hn : ∀ name ∈ n.keys, name ∈ (m.keys ++ n.keys).toFinset := by simp +contextual
  rw [total_eq_sum f hm, total_eq_sum g hn]
  exact Finset.sum_congr rfl fun name _ => h name

/-- Where two maps differ in one name only, so do their totals. -/
theorem total_of_agree {name : String} (measure : α → Nat)
    (h : ∀ other, other ≠ name → n.get? other = m.get? other) :
    n.total measure + (m.get? name).elim 0 measure
      = m.total measure + (n.get? name).elim 0 measure := by
  have hm : ∀ k ∈ m.keys, k ∈ (name :: m.keys ++ n.keys).toFinset := by simp +contextual
  have hn : ∀ k ∈ n.keys, k ∈ (name :: m.keys ++ n.keys).toFinset := by simp +contextual
  have hname : name ∈ (name :: m.keys ++ n.keys).toFinset := by simp
  rw [total_eq_sum measure hm, total_eq_sum measure hn, ← Finset.add_sum_erase _ _ hname,
    ← Finset.add_sum_erase _ _ hname]
  have hrest : ∑ k ∈ (name :: m.keys ++ n.keys).toFinset.erase name, (n.get? k).elim 0 measure
      = ∑ k ∈ (name :: m.keys ++ n.keys).toFinset.erase name, (m.get? k).elim 0 measure :=
    Finset.sum_congr rfl fun k hk => by rw [h k (Finset.ne_of_mem_erase hk)]
  omega

theorem elim_le_total (measure : α → Nat) (m : NameMap α) (name : String) :
    (m.get? name).elim 0 measure ≤ m.total measure := by
  have hagree : ∀ other, other ≠ name → (m.erase name).get? other = m.get? other := fun other hne => by
    rw [get?_erase, if_neg hne.symm]
  have htotal := total_of_agree measure hagree
  rw [get?_erase, if_pos rfl] at htotal
  exact Nat.le.intro ((Nat.add_comm _ _).trans htotal)

end NameMap

namespace Catalog

variable {c d : Catalog}

/-! ## Counts -/

/-- Whether a map holds the counts that are not zero. -/
def Counts (refs : NameMap Nat) (count : String → Nat) : Prop :=
  ∀ file, refs.get? file = if count file = 0 then none else some (count file)

namespace Counts

variable {refs : NameMap Nat} {count : String → Nat}

theorem congr {count' : String → Nat} (h : Counts refs count) (heq : ∀ file, count file = count' file) :
    Counts refs count' := by
  rwa [← funext heq]

theorem addRef (h : Counts refs count) (file : String) :
    Counts (addRef refs file) fun f => count f + [file].count f := by
  intro f
  rw [Catalog.addRef, NameMap.get?_insert, h file, h f]
  by_cases hf : file = f
  · subst hf
    by_cases hzero : count file = 0 <;> simp [hzero]
  · simp [hf]

theorem dropRef (h : Counts refs count) (file : String) :
    Counts (dropRef refs file) fun f => count f - [file].count f := by
  intro f
  have hfile := h file
  unfold Catalog.dropRef
  by_cases hzero : count file = 0
  · simp only [hzero, if_true] at hfile
    simp only [hfile, h f]
    by_cases hf : file = f
    · simp [← hf, hzero]
    · simp [hf]
  · simp only [hzero, if_false] at hfile
    simp only [hfile]
    by_cases hone : count file ≤ 1
    · rw [if_pos hone, NameMap.get?_erase, h f]
      by_cases hf : file = f
      · subst hf
        simp [hone]
      · simp [hf]
    · rw [if_neg hone, NameMap.get?_insert, h f]
      by_cases hf : file = f
      · subst hf
        have hrest : count file - 1 ≠ 0 := by omega
        simp [hrest]
      · simp [hf]

theorem foldl_addRef (h : Counts refs count) (files : List String) :
    Counts (files.foldl Catalog.addRef refs) fun f => count f + files.count f := by
  induction files generalizing refs count with
  | nil => simpa using h
  | cons file files ih =>
      refine (ih (h.addRef file)).congr fun f => ?_
      rw [Nat.add_assoc, ← List.count_append, List.singleton_append]

theorem foldl_dropRef (h : Counts refs count) (files : List String) :
    Counts (files.foldl Catalog.dropRef refs) fun f => count f - files.count f := by
  induction files generalizing refs count with
  | nil => simpa using h
  | cons file files ih =>
      refine (ih (h.dropRef file)).congr fun f => ?_
      rw [Nat.sub_sub, ← List.count_append, List.singleton_append]

/-- There is one map of counts. -/
theorem unique {refs' : NameMap Nat} (h : Counts refs count) (h' : Counts refs' count) :
    refs = refs' :=
  NameMap.ext_get? fun file => (h file).trans (h' file).symm

end Counts

/-! ## Contributions -/

/-- What is recorded for a module with some bare files: nothing if there are none. -/
def contribution? (files : List String) : Option (List String) :=
  if files = [] then none else some files

theorem count_contribution? (files : List String) (file : String) :
    (contribution? files).elim 0 (·.count file) = files.count file := by
  unfold contribution?
  split
  · next h => simp [h]
  · rfl

/-- How often a file stands in the contributions. -/
def contributed (c : Catalog) (file : String) : Nat :=
  c.contributions.total (·.count file)

/-- Whether the counts add up to the contributions. -/
def Balanced (c : Catalog) : Prop :=
  Counts c.fileRefs c.contributed

/-- Whether what is recorded for a name are the bare files that it depends on now. -/
def Current (c : Catalog) (name : String) : Prop :=
  c.contributions.get? name = contribution? (c.bareFiles name)

theorem get?_contributions_refreshContribution (c : Catalog) (name other : String) :
    (c.refreshContribution name).contributions.get? other
      = if other = name then contribution? (c.bareFiles name) else c.contributions.get? other := by
  simp only [refreshContribution, contribution?, @eq_comm _ other]
  split
  · rw [NameMap.get?_erase]
  · rw [NameMap.get?_insert]

theorem Balanced.congr (hc : c.Balanced) (hrefs : d.fileRefs = c.fileRefs)
    (hcontributions : d.contributions = c.contributions) : d.Balanced := by
  unfold Balanced contributed
  rw [hrefs, hcontributions]
  exact hc

/-- Putting one contribution in place of another keeps the balance. -/
theorem Balanced.refreshContribution (hc : c.Balanced) (name : String) :
    (c.refreshContribution name).Balanced := by
  refine ((hc.foldl_dropRef _).foldl_addRef (c.bareFiles name)).congr fun file => ?_
  have hagree : ∀ other, other ≠ name →
      (c.refreshContribution name).contributions.get? other = c.contributions.get? other :=
    fun other hne => by rw [get?_contributions_refreshContribution, if_neg hne]
  have htotal := NameMap.total_of_agree (fun files => files.count file) hagree
  rw [get?_contributions_refreshContribution, if_pos rfl, count_contribution?] at htotal
  have hprevious : (c.contributions.get? name).elim 0 (fun files => files.count file)
      = ((c.contributions.get? name).getD []).count file := by
    cases c.contributions.get? name <;> rfl
  have hle := NameMap.elim_le_total (fun files => files.count file) c.contributions name
  rw [hprevious] at htotal hle
  simp only [contributed]
  omega

/-! ## Balance -/

theorem Balanced.refreshAll (hc : c.Balanced) (names : List String) :
    (c.refreshAll names).Balanced :=
  refreshAll_induction (fun _ name hd => hd.refreshContribution name) names hc

theorem Balanced.switchOn (hc : c.Balanced) (name : String) : (c.switchOn name).Balanced :=
  (hc.congr (d := c.setEnabled name true) rfl rfl).refreshContribution name

theorem Balanced.switchOff (hc : c.Balanced) (name : String) : (c.switchOff name).Balanced :=
  (hc.congr (d := { c.setEnabled name false with explicit := c.explicit.erase name })
    rfl rfl).refreshContribution name

theorem Balanced.setParameter (hc : c.Balanced) {configuration name value : String}
    {change : Change} (h : c.setParameter configuration name value = .ok (change, d)) :
    d.Balanced := by
  obtain ⟨old, new, e, -, -, rfl, hd⟩ := setParameter_eq_ok h
  have hwith : (c.withParameter configuration name new).Balanced := hc.congr rfl rfl
  rcases hd with ⟨-, rfl⟩ | ⟨-, -, rfl⟩ | ⟨-, -, rfl⟩
  · exact hwith
  · exact pull_induction (fun _ name hd => hd.switchOn name) _ (hwith.refreshAll _)
  · exact hwith.refreshAll _

theorem Balanced.syncAutoenabled (hc : c.Balanced) : c.syncAutoenabled.2.Balanced :=
  syncAutoenabled_induction (fun _ _ _ hd => hd.congr rfl rfl) hc

/-- Every operation keeps the balance. -/
theorem Balanced.step (hc : c.Balanced) (op : Operation) : (c.step op).Balanced := by
  refine step_induction (fun _ _ hd => hd.congr rfl rfl) (fun _ name hd => hd.switchOn name)
    (fun _ name hd => hd.switchOff name) (fun _ _ _ _ _ _ hd h => hd.setParameter h)
    (fun _ hd => hd.syncAutoenabled) ?_ hc
  rintro configuration text rfl
  exact step_applyUserConfiguration_induction hc fun copy _ => hc.congr rfl rfl

theorem Balanced.run (hc : c.Balanced) (ops : List Operation) : (c.run ops).Balanced :=
  run_induction ops (fun _ op _ hd => hd.step op) hc

theorem balanced_build (sourceRoot : String) (modules : List Module) (headers : List Header)
    (lists : List ValueList) : (build sourceRoot modules headers lists).Balanced :=
  fun _ => rfl

end Catalog

end Configurator
