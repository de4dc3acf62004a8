import Configurator.Proofs.FileTree
import Configurator.Proofs.Path
import Mathlib.Data.List.Induction

/-!
# Paths of plain names

A path of plain names leads on from the directory that it is joined to, name by name (`IsMadeOf`). So two
of them lead to different places unless they have the same names (`FileTree.apart_join`).
-/

namespace Configurator

/-! ## Paths of names -/

namespace Path

variable {path path' : String} {names names' : List String} {name : String}

/-- Whether a path consists of some plain names. -/
structure IsMadeOf (path : String) (names : List String) : Prop where
  parts : path.toList.splitOn '/' = names.map String.toList
  names : ∀ name ∈ names, IsName name.toList

theorem IsName.isMadeOf (h : IsName name.toList) : IsMadeOf name [name] := by
  refine ⟨List.splitOn_eq_singleton h.slash, fun other hother => ?_⟩
  rwa [List.mem_singleton.1 hother]

theorem IsMadeOf.not_last (h : IsMadeOf path names) : path.toList.getLast? ≠ some '/' := by
  intro hlast
  obtain ⟨stem, hstem⟩ := List.getLast?_eq_some_iff.1 hlast
  have hparts := h.parts
  rw [hstem, List.splitOn_append_cons_self] at hparts
  have hempty : ([] : List Char) ∈ names.map String.toList := by
    rw [← hparts]
    exact List.mem_append_right _ List.mem_cons_self
  obtain ⟨name, hname, hnil⟩ := List.mem_map.1 hempty
  exact (h.names name hname).ne_nil hnil

theorem IsMadeOf.isAbsolute (h : IsMadeOf path names) : Path.isAbsolute path = false := by
  rw [Path.isAbsolute, decide_eq_false_iff_not]
  intro hfirst
  obtain ⟨rest, hrest⟩ := List.head?_eq_some_iff.1 hfirst
  have hparts := h.parts
  rw [hrest, List.splitOn_cons_eq_if_modifyHead, if_pos (beq_self_eq_true _)] at hparts
  have hempty : ([] : List Char) ∈ names.map String.toList := hparts ▸ List.mem_cons_self
  obtain ⟨name, hname, hnil⟩ := List.mem_map.1 hempty
  exact (h.names name hname).ne_nil hnil

theorem IsMadeOf.ne_empty (h : IsMadeOf path names) : path ≠ "" := by
  rintro rfl
  obtain ⟨name, hname, hnil⟩ := List.mem_map.1 (h.parts ▸ List.mem_singleton.2 rfl :
    ([] : List Char) ∈ names.map String.toList)
  exact (h.names name hname).ne_nil hnil

/-- Joined paths have the names of both. -/
theorem IsMadeOf.join (h : IsMadeOf path names) (h' : IsMadeOf path' names') :
    IsMadeOf (Path.join path path') (names ++ names') := by
  refine ⟨?_, fun name hname => ?_⟩
  · have hslash : "/".toList = ['/'] := rfl
    rw [join_eq h'.isAbsolute h.ne_empty, separator, if_neg h.not_last, String.toList_append,
      String.toList_append, hslash, List.append_assoc, List.singleton_append,
      List.splitOn_append_cons_self, h.parts, h'.parts, List.map_append]
  · rcases List.mem_append.1 hname with hname | hname
    · exact h.names name hname
    · exact h'.names name hname

theorem piecesOf_names (h : ∀ name ∈ names, IsName name.toList) (start : Nat) :
    (piecesOf start (names.map String.toList)).map (·.component)
      = names.map fun name => .name name.toList := by
  induction names generalizing start with
  | nil => rfl
  | cons name names ih =>
      rw [List.map_cons, piecesOf, (h name List.mem_cons_self).componentOf?]
      dsimp only
      rw [List.map_cons, ih fun name hname => h name (List.mem_cons_of_mem _ hname)]
      rfl

theorem IsMadeOf.components (h : IsMadeOf path names) :
    Path.components path = names.map fun name => .name name.toList := by
  unfold Path.components pieces
  split
  · next rest hrest =>
    have habsolute := h.isAbsolute
    rw [Path.isAbsolute, hrest] at habsolute
    cases habsolute
  · split
    · next rest hdot =>
      obtain ⟨name, hname, hnil⟩ := List.mem_map.1 (h.parts ▸ hdot ▸ List.mem_cons_self :
        ['.'] ∈ names.map String.toList)
      exact absurd hnil (h.names name hname).ne_dot
    · rw [h.parts]
      exact piecesOf_names h.names 0

theorem IsMadeOf.components_eq_iff (h : IsMadeOf path names) (h' : IsMadeOf path' names') :
    Path.components path = Path.components path' ↔ names = names' := by
  have hinjective : Function.Injective fun name : String => Component.name name.toList :=
    fun _ _ heq => String.toList_inj.1 (Component.name.inj heq)
  rw [h.components, h'.components, (List.map_injective_iff.2 hinjective).eq_iff]

end Path

/-! ## Where they lead -/

namespace FileTree

open Configurator.Path (IsName IsMadeOf)

variable {t : FileTree} {dir rel rel' : String} {names names' place place' : List String}

theorem toList_key (parts : List String) :
    (key parts).toList = parts.flatMap fun part => '/' :: part.toList := by
  have hjoin : ∀ texts : List String, (String.join texts).toList = texts.flatMap String.toList := by
    simp
  rw [key, hjoin, List.flatMap_map]
  exact List.flatMap_congr fun part _ => by simp

theorem key_append (parts parts' : List String) : key (parts ++ parts') = key parts ++ key parts' := by
  rw [← String.toList_inj, String.toList_append, toList_key, toList_key, toList_key,
    List.flatMap_append]

/-- A place whose path has one slash lies in the root. -/
theorem dropLast_eq_nil_of_count {place : List String} (h : (key place).toList.count '/' = 1) :
    place.dropLast = [] := by
  rcases place with _ | ⟨name, _ | ⟨next, rest⟩⟩
  · rfl
  · rfl
  · simp [toList_key] at h

theorem splitOn_key (h : ∀ name ∈ names, '/' ∉ name.toList) :
    (key names).toList.splitOn '/' = [] :: names.map String.toList := by
  induction names using List.reverseRecOn with
  | nil => rfl
  | append_singleton names name ih =>
      have hlast : (key (names ++ [name])).toList = (key names).toList ++ '/' :: name.toList := by
        rw [key_append, String.toList_append, toList_key [name], List.flatMap_singleton]
      rw [hlast, List.splitOn_append_cons_self,
        ih fun name hname => h name (List.mem_append_left _ hname),
        List.splitOn_eq_singleton (h name (by simp)), List.map_append]
      rfl

/-- Places are told apart by their paths. -/
theorem key_inj (h : ∀ name ∈ names, '/' ∉ name.toList) (h' : ∀ name ∈ names', '/' ∉ name.toList) :
    key names = key names' ↔ names = names' := by
  refine ⟨fun heq => ?_, congrArg key⟩
  have hparts := congrArg (fun path : String => path.toList.splitOn '/') heq
  rw [splitOn_key h, splitOn_key h'] at hparts
  have hinjective : Function.Injective String.toList := fun _ _ => String.toList_inj.1
  exact List.map_injective_iff.2 hinjective (List.cons.inj hparts).2

/-- A name that the disk takes leads on to what it names, and nowhere else. -/
theorem walk_names (h : ∀ name ∈ names, IsName name.toList) {base : List String}
    (hwalk : t.walk base names = .ok place) : place = base ++ names := by
  induction names generalizing base with
  | nil =>
      cases hwalk
      exact (List.append_nil _).symm
  | cons name names ih =>
      obtain ⟨hempty, hdot, hdots, -⟩ := h name List.mem_cons_self
      have hrest := fun name hname => h name (List.mem_cons_of_mem _ hname)
      unfold walk at hwalk
      split at hwalk
      · next hspecial =>
        have hlong : isTooLong name = true := by
          rcases hspecial with rfl | rfl | rfl | hlong
          · exact absurd rfl hempty
          · exact absurd rfl hdot
          · exact absurd rfl hdots
          · exact hlong
        split at hwalk
        · rw [if_pos hlong] at hwalk
          cases hwalk
        · cases hwalk
        · cases hwalk
      · rw [ih hrest hwalk, List.append_assoc, List.singleton_append]

theorem walk_of_locate {path : String} (h : t.locate path = .ok place) :
    t.walk (t.startOf path) ((path.toList.splitOn '/').map String.ofList) = .ok place := by
  unfold locate at h
  split at h
  · cases h
  · next hne =>
    obtain ⟨parts, hparts, hwalk⟩ := Outcome.bind_eq_ok_iff.1 h
    rwa [eq_partsOf_of_partsOf? hparts, partsOf, if_neg hne] at hwalk

/-- Paths of names lead on from the directory that they are joined to. -/
theorem exists_base_of_locate_join (t : FileTree) (dir : String) : ∃ start front : List String,
    ∀ rel names place, IsMadeOf rel names → t.locate (Path.join dir rel) = .ok place →
      ∃ base, t.walk start front = .ok base ∧ place = base ++ names := by
  obtain ⟨front, hsplit⟩ := Path.exists_splitOn_join dir
  refine ⟨t.startOf dir, front.map String.ofList, fun rel names place h hplace => ?_⟩
  have hwalk := walk_of_locate hplace
  have hnames : (names.map String.toList).map String.ofList = names := by simp [Function.comp_def]
  rw [startOf, Path.isAbsolute_join h.isAbsolute, ← startOf, hsplit rel h.isAbsolute, h.parts,
    List.map_append, hnames, walk_append] at hwalk
  obtain ⟨base, hbase, hrest⟩ := Outcome.bind_eq_ok_iff.1 hwalk
  exact ⟨base, hbase, walk_names h.names hrest⟩

theorem apart_join (h : IsMadeOf rel names) (h' : IsMadeOf rel' names') (hne : names ≠ names')
    (t : FileTree) (dir : String) : t.Apart (Path.join dir rel) (Path.join dir rel') := by
  obtain ⟨start, front, hbase⟩ := exists_base_of_locate_join t dir
  intro place place' hplace hplace' hkey
  obtain ⟨base, hwalk, rfl⟩ := hbase rel names place h hplace
  obtain ⟨base', hwalk', rfl⟩ := hbase rel' names' place' h' hplace'
  rw [hwalk, Except.ok.injEq] at hwalk'
  subst hwalk'
  rw [key_append, key_append, String.append_right_inj,
    key_inj (fun name hname => (h.names name hname).slash)
      fun name hname => (h'.names name hname).slash] at hkey
  exact hne hkey

/-! ## Paths of files -/

/-- Whether a directory lies in a directory. -/
def IsRooted (t : FileTree) : Prop :=
  ∀ place, t.entry? place = some .directory → t.entry? place.dropLast = some .directory

/-- A step that is no name leads from a directory to a directory. -/
theorem entry?_of_walk_dots (hrooted : t.IsRooted) {base : List String} {part : String}
    (hpart : part = "" ∨ part = "." ∨ part = "..") (hwalk : t.walk base [part] = .ok place) :
    t.entry? place = some .directory := by
  unfold walk at hwalk
  rw [if_pos (by tauto)] at hwalk
  split at hwalk
  · next hbase =>
    split at hwalk
    · cases hwalk
    · obtain rfl := Except.ok.inj hwalk
      split
      · exact hrooted base hbase
      · exact hbase
  · cases hwalk
  · cases hwalk

/-- The path of a file ends in a name. -/
theorem exists_fileName?_of_isFile (hrooted : t.IsRooted) {path : String}
    (h : t.isFile (Path.join dir path) = true) : ∃ file, Path.fileName? path = some file := by
  obtain ⟨front, last, hsplit⟩ : ∃ front last, path.toList.splitOn '/' = front ++ [last] := by
    obtain hnil | ⟨front, last, hlast⟩ := List.eq_nil_or_concat (path.toList.splitOn '/')
    · exact absurd hnil (List.splitOn_ne_nil _ _)
    · exact ⟨front, last, by rw [hlast, List.concat_eq_append]⟩
  by_cases hlast : last = [] ∨ last = ['.'] ∨ last = ['.', '.']
  · exfalso
    obtain ⟨front', hjoin⟩ :
        ∃ front', (Path.join dir path).toList.splitOn '/' = front' ++ [last] := by
      by_cases habsolute : Path.isAbsolute path = true
      · exact ⟨front, by rw [Path.join_of_isAbsolute habsolute, hsplit]⟩
      · obtain ⟨before, hbefore⟩ := Path.exists_splitOn_join dir
        exact ⟨before ++ front, by rw [hbefore path (by simpa using habsolute), hsplit,
          List.append_assoc]⟩
    unfold isFile at h
    split at h
    · next content hfound =>
      obtain ⟨place, hlocate, hplace⟩ := find?_eq_some_iff.1 hfound
      have hwalk := walk_of_locate hlocate
      rw [hjoin, List.map_append, walk_append] at hwalk
      obtain ⟨base, -, hstep⟩ := Outcome.bind_eq_ok_iff.1 hwalk
      have hdots : String.ofList last = "" ∨ String.ofList last = "." ∨ String.ofList last = ".." := by
        rcases hlast with rfl | rfl | rfl
        · exact .inl rfl
        · exact .inr (.inl rfl)
        · exact .inr (.inr rfl)
      rw [entry?_of_walk_dots hrooted hdots hstep] at hplace
      cases hplace
    · cases h
  · rw [not_or, not_or] at hlast
    exact ⟨_, Path.fileName?_of_splitOn hsplit (Path.componentOf?_eq_name_iff.2 ⟨rfl, hlast⟩)⟩

end FileTree

end Configurator
