import Configurator.FileTree
import Configurator.Proofs.NameMap
import Configurator.Proofs.Outcome

/-!
# What stays when files are written

Writing files takes nothing away from a tree (`Grows`), so that every path that led to a place still
leads there. What was written is read again (`read_of_write`), and what is written elsewhere is not below
a directory (`filesBelow_put`).
-/

namespace Configurator.FileTree

variable {t t' t'' : FileTree} {place other : List String} {path : String} {content : Content}

/-! ## Entries -/

theorem entry?_put (t : FileTree) (place other : List String) (entry : Entry) :
    FileTree.entry? (t.put place entry) other
      = if other ≠ [] ∧ key place = key other then some entry else t.entry? other := by
  unfold entry? put
  by_cases hroot : other = []
  · simp [hroot]
  · simp [hroot, NameMap.get?_insert]

theorem entry?_put_self (hplace : place ≠ []) (entry : Entry) :
    FileTree.entry? (t.put place entry) place = some entry := by
  rw [ entry?_put, if_pos ⟨hplace, rfl⟩]

/-- Places with one path have the same entry. -/
theorem entry?_congr (hplace : place ≠ []) (hother : other ≠ []) (hkey : key place = key other) :
    t.entry? place = t.entry? other := by
  rw [ entry?, entry?, if_neg hplace, if_neg hother, hkey]

theorem ne_nil_of_entry? (h : t.entry? place ≠ some .directory) : place ≠ [] := by
  rintro rfl
  exact h rfl

/-! ## Growing trees -/

/-- Whether all that stands in a tree stands in another one as well, though files may hold something
else there. -/
structure Grows (t t' : FileTree) : Prop where
  workingDir : t'.workingDir = t.workingDir
  directory : ∀ place, t.entry? place = some .directory → t'.entry? place = some .directory
  file : ∀ place content, t.entry? place = some (.file content) →
    ∃ content', t'.entry? place = some (.file content')

theorem Grows.refl (t : FileTree) : t.Grows t :=
  ⟨rfl, fun _ h => h, fun _ content h => ⟨content, h⟩⟩

theorem Grows.trans (h : t.Grows t') (h' : t'.Grows t'') : t.Grows t'' where
  workingDir := h'.workingDir.trans h.workingDir
  directory place hplace := h'.directory place (h.directory place hplace)
  file place content hplace := by
    obtain ⟨content', hplace'⟩ := h.file place content hplace
    exact h'.file place content' hplace'

/-- Where something stands something stands later on. -/
theorem Grows.exists_entry (h : t.Grows t') {entry : Entry} (hplace : t.entry? place = some entry) :
    ∃ entry', t'.entry? place = some entry' := by
  cases entry with
  | directory => exact ⟨_, h.directory place hplace⟩
  | file content =>
      obtain ⟨content', hplace'⟩ := h.file place content hplace
      exact ⟨_, hplace'⟩

/-- Something may be put where nothing stands, and a file in place of a file. -/
theorem grows_put {entry : Entry} (h : t.entry? place = none
    ∨ ∃ old content, t.entry? place = some (.file old) ∧ entry = .file content) :
    t.Grows (t.put place entry) := by
  have hplace : place ≠ [] := by
    refine ne_nil_of_entry? (t := t) ?_
    rcases h with h | ⟨old, content, h, -⟩ <;> simp [h]
  -- what stands at another place has another path, or else the same entry
  have hsame : ∀ other, other ≠ [] ∧ key place = key other → t.entry? other = t.entry? place :=
    fun other hother => ( entry?_congr hplace hother.1 hother.2).symm
  refine ⟨rfl, fun other hother => ?_, fun other old hother => ?_⟩
  · rw [ entry?_put]
    split
    · next hkey =>
      rw [hsame other hkey] at hother
      rcases h with h | ⟨old, content, h, -⟩ <;> simp [h] at hother
    · exact hother
  · rw [ entry?_put]
    split
    · next hkey =>
      rw [hsame other hkey] at hother
      rcases h with h | ⟨old, content, h, rfl⟩
      · simp [h] at hother
      · exact ⟨content, rfl⟩
    · exact ⟨old, hother⟩

/-- A path leads where it led before. -/
theorem Grows.walk (h : t.Grows t') {dir : List String} {parts : List String}
    (hwalk : t.walk dir parts = .ok place) : t'.walk dir parts = .ok place := by
  induction parts generalizing dir with
  | nil => exact hwalk
  | cons part parts ih =>
      unfold FileTree.walk at hwalk ⊢
      split at hwalk
      · next hspecial =>
        rw [if_pos hspecial]
        split at hwalk
        · next hdir =>
          rw [h.directory dir hdir]
          split at hwalk
          · cases hwalk
          · next hshort =>
            dsimp only
            rw [if_neg hshort]
            exact ih hwalk
        · cases hwalk
        · cases hwalk
      · next hplain =>
        rw [if_neg hplain]
        exact ih hwalk

theorem Grows.locate (h : t.Grows t') (hlocate : t.locate path = .ok place) :
    t'.locate path = .ok place := by
  unfold FileTree.locate at hlocate ⊢
  split at hlocate
  · cases hlocate
  · next hpath =>
    obtain ⟨parts, hparts, hwalk⟩ := Outcome.bind_eq_ok_iff.1 hlocate
    rw [if_neg hpath]
    refine Outcome.bind_eq_ok_iff.2 ⟨parts, hparts, h.walk ?_⟩
    rwa [startOf, h.workingDir]

/-- Plain names are followed one by one, whatever stands there. -/
theorem walk_of_plain (t : FileTree) {parts : List String}
    (h : ∀ part ∈ parts, part ≠ "" ∧ part ≠ "." ∧ part ≠ ".." ∧ isTooLong part = false)
    (dir : List String) : t.walk dir parts = .ok (dir ++ parts) := by
  induction parts generalizing dir with
  | nil => simp [FileTree.walk]
  | cons part parts ih =>
      have hplain : ¬ (part = "" ∨ part = "." ∨ part = ".." ∨ isTooLong part = true) := by
        simpa using h part List.mem_cons_self
      rw [FileTree.walk, if_neg hplain, ih fun part hpart => h part (List.mem_cons_of_mem _ hpart),
        List.append_assoc, List.singleton_append]

/-- Plain names lead to the place that they name. -/
theorem locate_of_plain (t : FileTree) {parts : List String} (hpath : path ≠ "")
    (hparts : partsOf? path = .ok parts)
    (h : ∀ part ∈ parts, part ≠ "" ∧ part ≠ "." ∧ part ≠ ".." ∧ isTooLong part = false) :
    t.locate path = .ok (t.startOf path ++ parts) := by
  rw [locate, if_neg hpath, hparts]
  exact t.walk_of_plain h _

theorem find?_eq_some_iff {entry : Entry} :
    t.find? path = some entry ↔ ∃ place, t.locate path = .ok place ∧ t.entry? place = some entry := by
  unfold find?
  cases t.locate path <;> simp

/-- A path whose place is kept and holds the same is found to hold the same. -/
theorem Grows.find?_eq (h : t.Grows t') (hlocate : t.locate path = .ok place)
    (hentry : t'.entry? place = t.entry? place) : t'.find? path = t.find? path := by
  rw [find?, find?, h.locate hlocate, hlocate]
  exact hentry

theorem Grows.isDirectory (h : t.Grows t') (hpath : t.isDirectory path = true) :
    t'.isDirectory path = true := by
  obtain ⟨place, hlocate, hplace⟩ := find?_eq_some_iff.1 (of_decide_eq_true hpath)
  exact decide_eq_true (find?_eq_some_iff.2 ⟨place, h.locate hlocate, h.directory place hplace⟩)

theorem exists?_iff : t.exists? path = true ↔ ∃ entry, t.find? path = some entry :=
  Option.isSome_iff_exists

theorem Grows.exists? (h : t.Grows t') (hpath : t.exists? path = true) : t'.exists? path = true := by
  obtain ⟨entry, hentry⟩ := exists?_iff.1 hpath
  obtain ⟨place, hlocate, hplace⟩ := find?_eq_some_iff.1 hentry
  obtain ⟨entry', hplace'⟩ := h.exists_entry hplace
  exact exists?_iff.2 ⟨entry', find?_eq_some_iff.2 ⟨place, h.locate hlocate, hplace'⟩⟩

/-! ## Reading and writing -/

theorem read_eq_ok_iff {s : String} :
    t.read path = .ok s
      ↔ ∃ place, t.locate path = .ok place ∧ t.entry? place = some (.file (.text s)) := by
  rw [read, Outcome.bind_eq_ok_iff]
  refine exists_congr fun place => and_congr_right fun _ => ?_
  cases t.entry? place with
  | none => simp
  | some entry =>
      cases entry with
      | directory => simp
      | file content => cases content <;> simp

theorem isFile_of_read {s : String} (h : t.read path = .ok s) : t.isFile path = true := by
  obtain ⟨place, hlocate, hplace⟩ := read_eq_ok_iff.1 h
  rw [isFile, find?_eq_some_iff.2 ⟨place, hlocate, hplace⟩]

/-- What is read at a path is decided by what is found there. -/
theorem read_congr {path' : String} (h : t'.find? path' = t.find? path) {s : String} :
    t'.read path' = .ok s ↔ t.read path = .ok s := by
  rw [read_eq_ok_iff, read_eq_ok_iff, ← find?_eq_some_iff, ← find?_eq_some_iff, h]

/-- Writing puts a file where nothing or a file stands. -/
theorem write_eq_ok (h : t.write path content = .ok t') :
    ∃ place, t.locate path = .ok place
      ∧ (t.entry? place = none ∨ ∃ old, t.entry? place = some (.file old))
      ∧ t' = t.put place (.file content) := by
  obtain ⟨place, hlocate, h⟩ := Outcome.bind_eq_ok_iff.1 h
  refine ⟨place, hlocate, ?_⟩
  split at h
  · cases h
  · next old hold =>
    cases h
    exact ⟨.inr ⟨old, hold⟩, rfl⟩
  · next hnone =>
    split at h
    · cases h
      exact ⟨.inl hnone, rfl⟩
    · cases h
    · cases h

theorem grows_of_write (h : t.write path content = .ok t') : t.Grows t' := by
  obtain ⟨place, -, hplace, rfl⟩ := write_eq_ok h
  exact grows_put (hplace.imp_right fun ⟨old, hold⟩ => ⟨old, content, hold, rfl⟩)

theorem read_of_write {s : String} (h : t.write path (.text s) = .ok t') : t'.read path = .ok s := by
  have hgrows := grows_of_write h
  obtain ⟨place, hlocate, hplace, rfl⟩ := write_eq_ok h
  have hne : place ≠ [] := by
    refine ne_nil_of_entry? (t := t) ?_
    rcases hplace with hplace | ⟨old, hplace⟩ <;> simp [hplace]
  exact read_eq_ok_iff.2 ⟨place, hgrows.locate hlocate, entry?_put_self hne _⟩

/-- A file that is there can be written. -/
theorem write_of_file {old : Content} (hlocate : t.locate path = .ok place)
    (hplace : t.entry? place = some (.file old)) :
    t.write path content = .ok (t.put place (.file content)) := by
  rw [write, hlocate]
  simp only [bind, Except.bind, hplace]

/-- A file can be written into a directory that has nothing of its name. -/
theorem write_of_none (hlocate : t.locate path = .ok place) (hplace : t.entry? place = none)
    (hdir : t.entry? place.dropLast = some .directory) :
    t.write path content = .ok (t.put place (.file content)) := by
  rw [write, hlocate]
  simp only [bind, Except.bind, hplace, hdir]

/-- Whether two paths lead to different places, as far as they lead anywhere. -/
def Apart (t : FileTree) (path other : String) : Prop :=
  ∀ place place', t.locate path = .ok place → t.locate other = .ok place' → key place ≠ key place'

theorem Apart.symm {other : String} (h : t.Apart path other) : t.Apart other path :=
  fun place place' hplace hplace' => (h place' place hplace' hplace).symm

/-- What is apart later on is apart before. -/
theorem Apart.of_grows {other : String} (h : t'.Apart path other) (hgrows : t.Grows t') :
    t.Apart path other :=
  fun place place' hplace hplace' => h place place' (hgrows.locate hplace) (hgrows.locate hplace')

/-! ## Making directories -/

section

variable {dir parts : List String} {entry : Entry}

/-- Making a way leaves what stands there. -/
theorem entry?_makeWay (h : t.entry? place = some entry) :
    FileTree.entry? (t.makeWay dir parts).2 place = some entry := by
  induction parts generalizing t dir with
  | nil => exact h
  | cons part parts ih =>
      unfold makeWay
      split
      · exact ih h
      · split
        · exact ih h
        · split
          · exact h
          · split
            · exact ih h
            · exact h
            · next hnone =>
              refine ih ?_
              rw [ entry?_put]
              split
              · next hkey =>
                have hne : dir ++ [part] ≠ [] := by simp
                rw [ entry?_congr hne hkey.1 hkey.2, h] at hnone
                cases hnone
              · exact h

theorem workingDir_makeWay (t : FileTree) (dir parts : List String) :
    (t.makeWay dir parts).2.workingDir = t.workingDir := by
  fun_induction makeWay t dir parts with
  | case1 => rfl
  | case2 _ _ _ _ _ ih => exact ih
  | case3 _ _ _ _ ih => exact ih
  | case4 => rfl
  | case5 _ _ _ _ _ _ _ _ ih => exact ih
  | case6 => rfl
  | case7 _ _ _ _ _ _ _ _ ih => exact ih

theorem grows_makeWay (t : FileTree) (dir parts : List String) : t.Grows (t.makeWay dir parts).2 :=
  ⟨workingDir_makeWay t dir parts, fun _ h => entry?_makeWay h,
    fun _ content h => ⟨content, entry?_makeWay h⟩⟩

/-- A way that was made is there, whatever is written afterwards. -/
theorem makeWay_again (h : t.makeWay dir parts = (.ok (), t')) (hgrows : t'.Grows t'') :
    t''.makeWay dir parts = (.ok (), t'') := by
  induction parts generalizing t dir with
  | nil => rfl
  | cons part parts ih =>
      unfold makeWay at h ⊢
      split at h
      · next hstay =>
        rw [if_pos hstay]
        exact ih h
      · next hmove =>
        rw [if_neg hmove]
        split at h
        · next hback =>
          rw [if_pos hback]
          exact ih h
        · next hname =>
          rw [if_neg hname]
          split at h
          · cases h
          · next hshort =>
            rw [if_neg hshort]
            -- the place is a directory in the end, whether it was there or not
            have hdir : ∀ u : FileTree, u.makeWay (dir ++ [part]) parts = (.ok (), t') →
                u.entry? (dir ++ [part]) = some .directory →
                t''.entry? (dir ++ [part]) = some .directory := by
              intro u hu hentry
              refine hgrows.directory _ ?_
              have hkept : FileTree.entry? (u.makeWay (dir ++ [part]) parts).2 (dir ++ [part])
                  = some .directory := entry?_makeWay hentry
              rwa [hu] at hkept
            split at h
            · next hentry =>
              rw [hdir t h hentry]
              exact ih h
            · cases h
            · rw [hdir _ h ( entry?_put_self (by simp) _)]
              exact ih h

theorem grows_makeDirectories (t : FileTree) (path : String) :
    t.Grows (t.makeDirectories path).2 := by
  unfold makeDirectories
  split
  · exact .refl t
  · exact grows_makeWay ..

theorem entry?_makeDirectories (h : t.entry? place = some entry) (path : String) :
    FileTree.entry? (t.makeDirectories path).2 place = some entry := by
  unfold makeDirectories
  split
  · exact h
  · exact entry?_makeWay h

theorem makeDirectories_again (h : t.makeDirectories path = (.ok (), t')) (hgrows : t'.Grows t'') :
    t''.makeDirectories path = (.ok (), t'') := by
  have hbefore := grows_makeDirectories t path
  rw [h] at hbefore
  unfold makeDirectories at h ⊢
  split at h
  · cases h
  · next parts hparts =>
    rw [startOf, hgrows.workingDir, hbefore.workingDir, ← startOf]
    exact makeWay_again h hgrows

end

/-! ## What is below a directory -/

/-- Whether a place is below another one. -/
def IsBelow (root place : List String) : Prop :=
  Text.dropPrefix? ((key root).toList ++ ['/']) (key place).toList ≠ none

instance (root place : List String) : Decidable (IsBelow root place) :=
  inferInstanceAs (Decidable (_ ≠ none))

/-- The files below a directory are those with its path and a slash in front of what is listed; a file
is below itself. -/
theorem mem_filesBelow_iff {file : String} :
    file ∈ t.filesBelow path ↔ ∃ root, t.locate path = .ok root
      ∧ (t.entry? root = some .directory
            ∧ (∃ content, t.entries.get? (key root ++ "/" ++ file) = some (.file content))
          ∨ (∃ content, t.entry? root = some (.file content)) ∧ file = "") := by
  unfold filesBelow
  cases t.locate path with
  | error fault => simp
  | ok root =>
      simp only [Except.ok.injEq, exists_eq_left']
      rcases t.entry? root with _ | content | _
      · simp
      · simp
      · dsimp only
        simp only [List.mem_filterMap, reduceCtorEq, true_and, false_and, or_false, exists_false,
          Option.some.injEq]
        have hkey : (key root ++ "/" ++ file).toList = (key root).toList ++ ['/'] ++ file.toList := by
          simp
        constructor
        · rintro ⟨⟨place, entry⟩, hmem, hfile⟩
          cases entry with
          | directory => cases hfile
          | file content =>
              obtain ⟨rest, hrest, rfl⟩ := Option.map_eq_some_iff.1 hfile
              have hplace : key root ++ "/" ++ String.ofList rest = place := by
                rw [← String.toList_inj, hkey, String.toList_ofList,
                  Text.dropPrefix?_eq_some_iff.1 hrest]
              exact ⟨content, NameMap.get?_eq_some_iff.2 (hplace ▸ hmem)⟩
        · rintro ⟨content, hcontent⟩
          refine ⟨_, NameMap.get?_eq_some_iff.1 hcontent, ?_⟩
          dsimp only
          rw [Text.dropPrefix?_eq_some_iff.2 hkey, Option.map_some, String.ofList_toList]

/-- What is put elsewhere is not below a directory, and no directory counts. -/
theorem filesBelow_put {entry : Entry} (hgrows : t.Grows (t.put place entry))
    (hlocate : t.locate path = .ok root) (hroot : t.entry? root = some .directory)
    (hplace : t.entry? place = none ∧ entry = .directory ∨ ¬ IsBelow root place) :
    filesBelow (t.put place entry) path = t.filesBelow path := by
  unfold filesBelow
  rw [hlocate, hgrows.locate hlocate]
  dsimp only
  rw [hroot, hgrows.directory root hroot]
  dsimp only
  refine NameMap.filterMap_insertEntry ?_ fun old hold => ?_
  · rcases hplace with ⟨-, rfl⟩ | hplace
    · rfl
    · cases entry with
      | directory => rfl
      | file content => simp [not_not.1 hplace]
  · cases old with
    | directory => rfl
    | file content =>
        rcases hplace with ⟨hnone, -⟩ | hplace
        · have hne : place ≠ [] := ne_nil_of_entry? (t := t) (by simp [hnone])
          rw [ entry?, if_neg hne, NameMap.get?_eq_some_iff.2 hold] at hnone
          cases hnone
        · simp [not_not.1 hplace]

theorem filesBelow_makeWay {dir parts : List String} (hlocate : t.locate path = .ok root)
    (hroot : t.entry? root = some .directory) :
    filesBelow (t.makeWay dir parts).2 path = t.filesBelow path := by
  fun_induction makeWay t dir parts with
  | case1 => rfl
  | case2 _ _ _ _ _ ih => exact ih hlocate hroot
  | case3 _ _ _ _ ih => exact ih hlocate hroot
  | case4 => rfl
  | case5 _ _ _ _ _ _ _ _ ih => exact ih hlocate hroot
  | case6 => rfl
  | case7 t dir part parts _ _ _ hnone ih =>
      have hgrows : t.Grows (t.put (dir ++ [part]) .directory) := grows_put (.inl hnone)
      exact (ih (hgrows.locate hlocate) (hgrows.directory root hroot)).trans
        (filesBelow_put hgrows hlocate hroot (.inl ⟨hnone, rfl⟩))

theorem filesBelow_makeDirectories (hlocate : t.locate path = .ok root)
    (hroot : t.entry? root = some .directory) (dir : String) :
    filesBelow (t.makeDirectories dir).2 path = t.filesBelow path := by
  unfold makeDirectories
  split
  · rfl
  · exact filesBelow_makeWay hlocate hroot

theorem filesBelow_write {other : String} (h : t.write other content = .ok t')
    (hlocate : t.locate path = .ok root) (hroot : t.entry? root = some .directory)
    (hplace : ∀ place, t'.locate other = .ok place → ¬ IsBelow root place) :
    t'.filesBelow path = t.filesBelow path := by
  have hgrows := grows_of_write h
  obtain ⟨place, hother, -, rfl⟩ := write_eq_ok h
  exact filesBelow_put hgrows hlocate hroot (.inr (hplace place (hgrows.locate hother)))

/-! ## Paths side by side -/

theorem walk_append (t : FileTree) (dir parts more : List String) :
    t.walk dir (parts ++ more) = t.walk dir parts >>= fun dir => t.walk dir more := by
  induction parts generalizing dir with
  | nil => rfl
  | cons part parts ih =>
      rw [List.cons_append, walk, walk]
      split
      · split
        · split
          · rfl
          · exact ih _
        · rfl
        · rfl
      · exact ih _

/-- An ending without a slash only makes the last part of a path longer. -/
theorem exists_splitOn_append (cs : List Char) :
    ∃ front last, ∀ ending, '/' ∉ ending →
      (cs ++ ending).splitOn '/' = front ++ [last ++ ending] := by
  induction cs with
  | nil => exact ⟨[], [], fun ending h => List.splitOn_eq_singleton h⟩
  | cons c cs ih =>
      obtain ⟨front, last, hsplit⟩ := ih
      by_cases hslash : c = '/'
      · refine ⟨[] :: front, last, fun ending h => ?_⟩
        rw [List.cons_append, List.splitOn_cons_eq_if_modifyHead, hsplit ending h, hslash]
        rfl
      · cases front with
        | nil =>
            refine ⟨[], c :: last, fun ending h => ?_⟩
            rw [List.cons_append, List.splitOn_cons_eq_if_modifyHead, hsplit ending h]
            simp [hslash]
        | cons first front =>
            refine ⟨(c :: first) :: front, last, fun ending h => ?_⟩
            rw [List.cons_append, List.splitOn_cons_eq_if_modifyHead, hsplit ending h]
            simp [hslash]

/-- An ending that takes part in no step of a path. -/
structure IsEnding (ending : String) : Prop where
  slash : '/' ∉ ending.toList
  length : 3 ≤ ending.length

theorem eq_partsOf_of_partsOf? {parts : List String} (h : partsOf? path = .ok parts) :
    parts = partsOf path := by
  unfold partsOf? at h
  split at h
  · cases h
  · split at h
    · cases h
    · cases h
      rfl

/-- A part with such an ending leads to an entry of its directory, unless it is too long. -/
theorem walk_of_isEnding {ending : String} (h : IsEnding ending) (t : FileTree) (dir : List String)
    (last : String) :
    t.walk dir [last ++ ending] = .ok (dir ++ [last ++ ending])
      ∨ ∀ t' : FileTree, ∀ place, t'.walk dir [last ++ ending] ≠ .ok place := by
  have hlong : ∀ s : String, s.length < 3 → last ++ ending ≠ s := by
    rintro s hs rfl
    have hlength := h.length
    rw [String.length_append] at hs
    omega
  cases htoo : isTooLong (last ++ ending) with
  | false =>
      refine .inl (walk_of_plain t (fun part hpart => ?_) dir)
      rw [List.mem_singleton.1 hpart]
      exact ⟨hlong "" (by decide), hlong "." (by decide), hlong ".." (by decide), htoo⟩
  | true =>
      refine .inr fun t' place heq => ?_
      unfold walk at heq
      rw [if_pos (by simp [htoo])] at heq
      split at heq
      · rw [if_pos htoo] at heq
        cases heq
      · cases heq
      · cases heq

theorem isAbsolute_append (stem : String) {ending : String} (h : '/' ∉ ending.toList) :
    Path.isAbsolute (stem ++ ending) = Path.isAbsolute stem := by
  unfold Path.isAbsolute
  rw [String.toList_append]
  cases stem.toList with
  | nil =>
      cases hcs : ending.toList with
      | nil => rfl
      | cons c cs =>
          have hc : c ≠ '/' := fun heq => h (by simp [hcs, heq])
          simp [hc]
  | cons c cs => rfl

/-- Paths that differ in their endings lead through one directory. -/
theorem exists_walk_of_isEnding (stem : String) : ∃ front last, ∀ ending, IsEnding ending →
    ∀ (t : FileTree) (place : List String), t.locate (stem ++ ending) = .ok place ↔
      (∃ parts, partsOf? (stem ++ ending) = .ok parts)
        ∧ (t.walk (t.startOf stem) front >>= (t.walk · [last ++ ending])) = .ok place := by
  obtain ⟨front, last, hsplit⟩ := exists_splitOn_append stem.toList
  refine ⟨front.map String.ofList, String.ofList last, fun ending h t place => ?_⟩
  have hne : stem ++ ending ≠ "" := fun heq => by
    have hlength := congrArg String.length heq
    have hlong := h.length
    rw [String.length_append, String.length_empty] at hlength
    omega
  have hparts : partsOf (stem ++ ending)
      = front.map String.ofList ++ [String.ofList last ++ ending] := by
    rw [partsOf, if_neg hne, String.toList_append, hsplit _ h.slash, List.map_append,
      List.map_singleton, String.ofList_append, String.ofList_toList]
  have hstart : t.startOf (stem ++ ending) = t.startOf stem := by
    rw [startOf, startOf, isAbsolute_append stem h.slash]
  rw [locate, if_neg hne, ← walk_append, ← hparts, hstart]
  show partsOf? (stem ++ ending) >>= _ = _ ↔ _
  rw [Outcome.bind_eq_ok_iff]
  constructor
  · rintro ⟨parts, hok, hwalk⟩
    exact ⟨⟨parts, hok⟩, eq_partsOf_of_partsOf? hok ▸ hwalk⟩
  · rintro ⟨⟨parts, hok⟩, hwalk⟩
    exact ⟨parts, hok, by rwa [eq_partsOf_of_partsOf? hok]⟩

/-- Where one path leads somewhere, another one with the same directory does so as well, unless the disk
never takes it. -/
theorem exists_locate_of_beside {stem ending ending' : String} (h : IsEnding ending)
    (h' : IsEnding ending') (hlocate : t.locate (stem ++ ending) = .ok place) (hgrows : t.Grows t')
    (hlater : ∃ place', t'.locate (stem ++ ending') = .ok place') :
    ∃ place', t.locate (stem ++ ending') = .ok place' := by
  obtain ⟨front, last, hwalk⟩ := exists_walk_of_isEnding stem
  obtain ⟨dir, hdir, -⟩ := Outcome.bind_eq_ok_iff.1 ((hwalk ending h t place).1 hlocate).2
  obtain ⟨place', hlocate'⟩ := hlater
  obtain ⟨hparts, hlater⟩ := (hwalk ending' h' t' place').1 hlocate'
  have hdir' : t'.walk (t'.startOf stem) front = .ok dir := by
    rw [startOf, hgrows.workingDir, ← startOf]
    exact hgrows.walk hdir
  rw [hdir', Outcome.bind_eq_ok_iff] at hlater
  obtain ⟨_, ⟨⟩, hlast⟩ := hlater
  rcases walk_of_isEnding h' t dir last with hfound | hnever
  · exact ⟨_, (hwalk ending' h' t _).2 ⟨hparts, Outcome.bind_eq_ok_iff.2 ⟨dir, hdir, hfound⟩⟩⟩
  · exact absurd hlast (hnever t' place')

end Configurator.FileTree
