import Configurator.Proofs.Catalog.Loading
import Configurator.Proofs.Project.Values

/-!
# Merging copies of headers

Of the files that were generated before only what the copies of the headers hold counts
(`Project.copyOf?`). Merging succeeds if they can all be read (`exists_mergeHeaders`), each header takes
over what its own copy holds (`get?_mergeHeaders`), and nothing depends on how the source root is spelled
(`mergeHeaders_atRoot`).
-/

namespace Configurator

theorem Catalog.isBuilt_atRoot {c : Catalog} (h : c.IsBuilt) (sourceRoot : String) :
    (c.atRoot sourceRoot).IsBuilt := by
  obtain ⟨root, modules, headers, lists, hbuilt⟩ := h
  exact ⟨sourceRoot, modules, headers, lists, congrArg (·.atRoot sourceRoot) hbuilt⟩

/-! ## Copies of headers -/

namespace Project

variable {tree tree' : FileTree} {configDir configDir' : String} {c d : Catalog}

/-- What the copy of a header in a directory holds, if there is one. -/
def copyOf? (tree : FileTree) (configDir path : String) : Option (Except FileTree.Fault String) :=
  (Path.fileName? path).bind fun name =>
    if tree.isFile (Path.join configDir name) then some (tree.read (Path.join configDir name))
    else none

theorem mergeHeader_eq (tree : FileTree) (configDir : String) (c : Catalog) (path : String) :
    mergeHeader tree configDir c path =
      match copyOf? tree configDir path with
      | none => .ok (0, c)
      | some (.error fault) => .error (.io fault)
      | some (.ok text) => c.applyUserConfiguration path text := by
  unfold mergeHeader takeCopy copyOf?
  cases Path.fileName? path with
  | none => rfl
  | some name =>
      simp only [Option.bind_some]
      split
      · cases tree.read (Path.join configDir name) <;> rfl
      · rfl

theorem onlyValues_applyUserConfiguration {path text : String} {n : Nat}
    (h : c.applyUserConfiguration path text = .ok (n, d)) : OnlyValues c d := by
  obtain ⟨copy, -, rfl⟩ := Catalog.applyUserConfiguration_eq_ok h
  exact ⟨Catalog.declared_modifyHeader fun k _ => Catalog.declared_merge k copy, rfl, rfl⟩

theorem onlyValues_mergeHeader {path : String} {n : Nat}
    (h : mergeHeader tree configDir c path = .ok (n, d)) : OnlyValues c d := by
  rw [mergeHeader_eq] at h
  split at h
  · cases h
    exact ⟨rfl, rfl, rfl⟩
  · cases h
  · exact onlyValues_applyUserConfiguration h

/-- Merging copies of headers changes nothing but values. -/
theorem onlyValues_mergeHeaders (tree : FileTree) (configDir : String) (c : Catalog)
    (paths : List String) : OnlyValues c (mergeHeaders tree configDir c paths).2 := by
  induction paths generalizing c with
  | nil => exact ⟨rfl, rfl, rfl⟩
  | cons path paths ih =>
      rw [mergeHeaders_cons]
      split
      · exact ⟨rfl, rfl, rfl⟩
      · next hmerge => exact (onlyValues_mergeHeader hmerge).trans (ih _)

theorem onlyValues_mergeGenerated {result : Except Error Nat}
    (h : mergeGenerated tree configDir c = (result, d)) : OnlyValues c d := by
  have honly := onlyValues_mergeHeaders tree configDir c c.headers.keys
  rwa [← mergeGenerated, h] at honly

/-- Merging copies of headers takes them over one after the other. -/
theorem exists_run_mergeHeaders (tree : FileTree) (configDir : String) (paths : List String)
    (c : Catalog) :
    ∃ copies : List (String × String), (mergeHeaders tree configDir c paths).2
      = c.run (copies.map fun e => .applyUserConfiguration e.1 e.2) := by
  induction paths generalizing c with
  | nil => exact ⟨[], rfl⟩
  | cons path paths ih =>
      rw [mergeHeaders_cons]
      cases hmerge : mergeHeader tree configDir c path with
      | error e => exact ⟨[], rfl⟩
      | ok result =>
          obtain ⟨n, d⟩ := result
          obtain ⟨copies, hrest⟩ := ih d
          rw [mergeHeader_eq] at hmerge
          split at hmerge
          · cases hmerge
            exact ⟨copies, hrest⟩
          · cases hmerge
          · next text _ =>
            refine ⟨(path, text) :: copies, hrest.trans ?_⟩
            have hstep : c.step (.applyUserConfiguration path text) = d :=
              Catalog.Update.leaves_of_ok hmerge
            rw [List.map_cons, ← hstep]
            rfl

theorem mergeHeaders_of_no_copy {paths : List String}
    (h : ∀ path ∈ paths, copyOf? tree configDir path = none) (c : Catalog) :
    mergeHeaders tree configDir c paths = (.ok 0, c) := by
  induction paths generalizing c with
  | nil => rfl
  | cons path paths ih =>
      rw [mergeHeaders_cons, mergeHeader_eq, h path List.mem_cons_self]
      dsimp only
      rw [ih fun path hpath => h path (List.mem_cons_of_mem _ hpath)]
      rfl

theorem applyUserConfiguration_atRoot (c : Catalog) (sourceRoot path text : String) :
    (c.atRoot sourceRoot).applyUserConfiguration path text
      = (c.applyUserConfiguration path text).map (Prod.map id (·.atRoot sourceRoot)) := by
  have hheaders : (c.atRoot sourceRoot).headers = c.headers := rfl
  rw [Catalog.applyUserConfiguration_eq, Catalog.applyUserConfiguration_eq, hheaders]
  cases Header.parse path text with
  | error e => rfl
  | ok copy => cases c.headers.get? path <;> rfl

/-- Copies that hold the same are merged in the same way, wherever the source tree is. -/
theorem mergeHeaders_atRoot (sourceRoot : String) {paths : List String}
    (h : ∀ path ∈ paths, copyOf? tree' configDir' path = copyOf? tree configDir path)
    (c : Catalog) :
    mergeHeaders tree' configDir' (c.atRoot sourceRoot) paths
      = Prod.map id (·.atRoot sourceRoot) (mergeHeaders tree configDir c paths) := by
  induction paths generalizing c with
  | nil => rfl
  | cons path paths ih =>
      have hmerge : mergeHeader tree' configDir' (c.atRoot sourceRoot) path
          = (mergeHeader tree configDir c path).map (Prod.map id (·.atRoot sourceRoot)) := by
        rw [mergeHeader_eq, mergeHeader_eq, h path List.mem_cons_self]
        split
        · rfl
        · rfl
        · exact applyUserConfiguration_atRoot ..
      rw [mergeHeaders_cons, mergeHeaders_cons, hmerge]
      cases mergeHeader tree configDir c path with
      | error e => rfl
      | ok merged =>
          simp only [Except.map, Prod.map]
          rw [ih fun path hpath => h path (List.mem_cons_of_mem _ hpath)]
          rfl

/-! ## Copies that can be read -/

/-- Whether the copy of a header can be read, if there is one. -/
def CopyReads (tree : FileTree) (configDir path : String) : Prop :=
  ∀ found, copyOf? tree configDir path = some found →
    ∃ text copy, found = .ok text ∧ Header.parse path text = .ok copy

theorem mergeHeader_of_copy {path text : String} {copy h : Header}
    (hcopy : copyOf? tree configDir path = some (.ok text)) (hparse : Header.parse path text = .ok copy)
    (hh : c.headers.get? path = some h) :
    mergeHeader tree configDir c path = .ok (h.mergeCount copy, c.modifyHeader path (·.merge copy)) := by
  rw [mergeHeader_eq, hcopy]
  dsimp only
  rw [Catalog.applyUserConfiguration_eq, hparse, hh]

theorem mergeHeader_of_none {path : String} (hcopy : copyOf? tree configDir path = none) :
    mergeHeader tree configDir c path = .ok (0, c) := by
  rw [mergeHeader_eq, hcopy]

theorem copyReads_of_mergeHeader {path : String} {n : Nat}
    (h : mergeHeader tree configDir c path = .ok (n, d)) : CopyReads tree configDir path := by
  intro found hfound
  rw [mergeHeader_eq, hfound] at h
  cases found with
  | error fault => cases h
  | ok text =>
      obtain ⟨copy, hparse, -⟩ := Catalog.applyUserConfiguration_eq_ok h
      exact ⟨text, copy, rfl, hparse⟩

/-- A header that is merged takes over what its copy holds, and the others stay. -/
theorem get?_mergeHeader {path : String} {n : Nat}
    (h : mergeHeader tree configDir c path = .ok (n, d)) (other : String) :
    (other ≠ path → d.headers.get? other = c.headers.get? other)
      ∧ ∀ text copy, copyOf? tree configDir path = some (.ok text) →
        Header.parse path text = .ok copy →
          d.headers.get? path = (c.headers.get? path).map (·.merge copy) := by
  rw [mergeHeader_eq] at h
  split at h
  · next hnone =>
    cases h
    exact ⟨fun _ => rfl, fun text copy hcopy => by rw [hnone] at hcopy; cases hcopy⟩
  · cases h
  · next text hcopy =>
    obtain ⟨copy, hparse, rfl⟩ := Catalog.applyUserConfiguration_eq_ok h
    refine ⟨fun hne => ?_, fun text' copy' hcopy' hparse' => ?_⟩
    · rw [Catalog.modifyHeader, NameMap.get?_modify, if_neg hne]
    · rw [hcopy, Option.some.injEq, Except.ok.injEq] at hcopy'
      subst hcopy'
      rw [hparse, Except.ok.injEq] at hparse'
      subst hparse'
      rw [Catalog.modifyHeader, NameMap.get?_modify, if_pos rfl]

theorem mergeHeaders_cons_eq_ok_iff {path : String} {paths : List String} {n : Nat} :
    mergeHeaders tree configDir c (path :: paths) = (.ok n, d)
      ↔ ∃ one e more, mergeHeader tree configDir c path = .ok (one, e)
        ∧ mergeHeaders tree configDir e paths = (.ok more, d) ∧ n = one + more := by
  rw [mergeHeaders_cons]
  cases mergeHeader tree configDir c path with
  | error e => simp
  | ok merged =>
      dsimp only
      cases hrest : mergeHeaders tree configDir merged.2 paths with
      | mk others e =>
          cases others with
          | error e => simp [Except.map, Prod.ext_iff, hrest]
          | ok more => simp [Except.map, Prod.ext_iff, hrest, and_comm, eq_comm]

theorem copyReads_of_mergeHeaders {paths : List String} {n : Nat}
    (h : mergeHeaders tree configDir c paths = (.ok n, d)) :
    ∀ path ∈ paths, CopyReads tree configDir path := by
  induction paths generalizing c n with
  | nil => simp
  | cons path paths ih =>
      obtain ⟨one, e, more, hone, hmore, -⟩ := mergeHeaders_cons_eq_ok_iff.1 h
      intro other hother
      rcases List.mem_cons.1 hother with rfl | hother
      · exact copyReads_of_mergeHeader hone
      · exact ih hmore other hother

/-- Copies that can be read can be merged. -/
theorem exists_mergeHeaders {paths : List String}
    (hreads : ∀ path ∈ paths, CopyReads tree configDir path)
    (hthere : ∀ path ∈ paths, ∃ h, c.headers.get? path = some h) :
    ∃ n d, mergeHeaders tree configDir c paths = (.ok n, d) := by
  induction paths generalizing c with
  | nil => exact ⟨0, c, rfl⟩
  | cons path paths ih =>
      obtain ⟨one, e, hone⟩ : ∃ one e, mergeHeader tree configDir c path = .ok (one, e) := by
        cases hcopy : copyOf? tree configDir path with
        | none => exact ⟨0, c, mergeHeader_of_none hcopy⟩
        | some found =>
            obtain ⟨text, copy, rfl, hparse⟩ := hreads path List.mem_cons_self found hcopy
            obtain ⟨h, hh⟩ := hthere path List.mem_cons_self
            exact ⟨_, _, mergeHeader_of_copy hcopy hparse hh⟩
      have hdecl := (onlyValues_mergeHeader hone).declared
      obtain ⟨more, d, hmore⟩ := ih (c := e)
        (fun other hother => hreads other (List.mem_cons_of_mem _ hother)) fun other hother => by
          obtain ⟨h, hh⟩ := hthere other (List.mem_cons_of_mem _ hother)
          obtain ⟨k, hk, -⟩ := Catalog.exists_header hdecl.symm hh
          exact ⟨k, hk⟩
      exact ⟨_, d, mergeHeaders_cons_eq_ok_iff.2 ⟨one, e, more, hone, hmore, rfl⟩⟩

/-- Each header takes over what its own copy holds. -/
theorem get?_mergeHeaders {paths : List String} {n : Nat}
    (h : mergeHeaders tree configDir c paths = (.ok n, d)) (hnodup : paths.Nodup) (path : String) :
    (path ∉ paths → d.headers.get? path = c.headers.get? path)
      ∧ (path ∈ paths → ∀ text copy, copyOf? tree configDir path = some (.ok text) →
        Header.parse path text = .ok copy →
          d.headers.get? path = (c.headers.get? path).map (·.merge copy)) := by
  induction paths generalizing c n with
  | nil =>
      cases h
      exact ⟨fun _ => rfl, fun hmem => absurd hmem List.not_mem_nil⟩
  | cons first paths ih =>
      obtain ⟨one, e, more, hone, hmore, -⟩ := mergeHeaders_cons_eq_ok_iff.1 h
      obtain ⟨hnot, hnodup⟩ := List.nodup_cons.1 hnodup
      obtain ⟨hkept, htaken⟩ := ih hmore hnodup
      obtain ⟨hkept', htaken'⟩ := get?_mergeHeader hone path
      refine ⟨fun hmem => ?_, fun hmem text copy hcopy hparse => ?_⟩
      · rw [List.mem_cons, not_or] at hmem
        rw [hkept hmem.2, hkept' hmem.1]
      · rcases List.mem_cons.1 hmem with rfl | hmem
        · rw [hkept hnot, htaken' text copy hcopy hparse]
        · rw [htaken hmem text copy hcopy hparse, hkept' fun heq => hnot (heq ▸ hmem)]

end Project

end Configurator
