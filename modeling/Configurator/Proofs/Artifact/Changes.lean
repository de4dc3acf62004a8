import Configurator.Proofs.Artifact.Writing

/-!
# What writing artifacts changes

Of all files in a tree, writing an artifact changes the one where the artifact goes and no other
(`Artifact.contentAt?_write`). So where artifacts go to different places, each of them stands at its own
afterwards, unless it was kept, and nothing else is new (`Artifact.exists_contentAt?_of_writeAll`,
`Artifact.contentAt?_writeAll`).
-/

namespace Configurator

namespace FileTree

variable {t t' before after : FileTree} {place : List String} {path : String} {content : Content}

theorem isFile_iff : t.isFile path = true ↔ ∃ content, t.find? path = some (.file content) := by
  unfold isFile
  split <;> simp_all

theorem Grows.isFile (h : t.Grows t') (hpath : t.isFile path = true) : t'.isFile path = true := by
  obtain ⟨content, hfile⟩ := isFile_iff.1 hpath
  obtain ⟨place, hlocate, hplace⟩ := find?_eq_some_iff.1 hfile
  obtain ⟨content', hplace'⟩ := h.file place content hplace
  exact isFile_iff.2 ⟨content', find?_eq_some_iff.2 ⟨place, h.locate hlocate, hplace'⟩⟩

/-! ## Changed files -/

/-- What the file at an absolute path holds. -/
def contentAt? (t : FileTree) (path : String) : Option Content :=
  match t.entries.get? path with
  | some (.file content) => some content
  | _ => none

/-- The absolute paths of the files that are new or hold something else than before. -/
def changed (before after : FileTree) : List String :=
  after.entries.keys.filter fun path =>
    after.contentAt? path ≠ none ∧ after.contentAt? path ≠ before.contentAt? path

theorem mem_changed_iff :
    path ∈ before.changed after
      ↔ after.contentAt? path ≠ none ∧ after.contentAt? path ≠ before.contentAt? path := by
  rw [changed, List.mem_filter, decide_eq_true_iff, and_iff_right_iff_imp]
  rintro ⟨hfile, -⟩
  rw [NameMap.mem_keys_iff]
  unfold contentAt? at hfile
  cases hentry : after.entries.get? path with
  | none =>
      rw [hentry] at hfile
      exact absurd rfl hfile
  | some entry => rfl

theorem nodup_changed (before after : FileTree) : (before.changed after).Nodup :=
  after.entries.nodup_keys.filter _

theorem entry?_eq_file_iff (hplace : place ≠ []) :
    t.entry? place = some (.file content) ↔ t.contentAt? (key place) = some content := by
  rw [ entry?, if_neg hplace, contentAt?]
  cases t.entries.get? (key place) with
  | none => simp
  | some entry => cases entry <;> simp

theorem contentAt?_put_file (t : FileTree) (place : List String) (content : Content) (path : String) :
    (t.put place (.file content)).contentAt? path
      = if key place = path then some content else t.contentAt? path := by
  by_cases hkey : key place = path <;> simp [contentAt?, put, NameMap.get?_insert, hkey]

/-- A directory that is put where nothing is changes no file. -/
theorem contentAt?_put_directory (hplace : place ≠ []) (hnone : t.entry? place = none)
    (path : String) : (t.put place .directory).contentAt? path = t.contentAt? path := by
  rw [ entry?, if_neg hplace] at hnone
  by_cases hkey : key place = path
  · simp [contentAt?, put, ← hkey, hnone]
  · simp [contentAt?, put, NameMap.get?_insert, hkey]

/-- Making directories changes no file. -/
theorem contentAt?_makeWay (t : FileTree) (dir parts : List String) (path : String) :
    (t.makeWay dir parts).2.contentAt? path = t.contentAt? path := by
  fun_induction makeWay t dir parts with
  | case1 => rfl
  | case2 _ _ _ _ _ ih => exact ih
  | case3 _ _ _ _ ih => exact ih
  | case4 => rfl
  | case5 _ _ _ _ _ _ _ _ ih => exact ih
  | case6 => rfl
  | case7 t dir part parts _ _ _ hnone ih =>
      exact ih.trans (contentAt?_put_directory (by simp) hnone path)

theorem contentAt?_makeDirectories (t : FileTree) (dir path : String) :
    (t.makeDirectories dir).2.contentAt? path = t.contentAt? path := by
  unfold makeDirectories
  split
  · rfl
  · exact contentAt?_makeWay ..

theorem contentAt?_write (h : t.write path content = .ok t') :
    ∃ place, place ≠ [] ∧ t'.locate path = .ok place
      ∧ ∀ other, t'.contentAt? other = if key place = other then some content
        else t.contentAt? other := by
  have hgrows := grows_of_write h
  obtain ⟨place, hlocate, hplace, rfl⟩ := write_eq_ok h
  refine ⟨place, ne_nil_of_entry? (t := t) ?_, hgrows.locate hlocate, contentAt?_put_file t place _⟩
  rcases hplace with hplace | ⟨old, hplace⟩ <;> simp [hplace]

end FileTree

namespace Artifact

open FileTree (key)

variable {tree tree' : FileTree} {dir path : String} {a : Artifact} {as : List Artifact}
  {written : List String}

/-! ## One artifact -/

/-- Writing an artifact changes at most the file where it goes. -/
theorem contentAt?_write (h : a.write tree dir = (.ok (), tree')) :
    ∃ place, place ≠ [] ∧ tree'.locate (a.destination dir) = .ok place
      ∧ ∀ path, tree'.contentAt? path = if key place = path then some (.text a.contents)
        else tree.contentAt? path := by
  obtain ⟨t, hdirs, hwrite⟩ := write_eq_ok h
  obtain ⟨place, hne, hlocate, hcontent⟩ := FileTree.contentAt?_write hwrite
  have hmade := tree.contentAt?_makeDirectories ((Path.parent? (a.destination dir)).getD dir)
  rw [hdirs] at hmade
  exact ⟨place, hne, hlocate, fun path => by rw [hcontent, ← hmade path]⟩

/-- What is there is kept later on if it is kept now. -/
theorem isKept_of_grows (h : a.isKept tree dir = true) (hgrows : tree.Grows tree') :
    a.isKept tree' dir = true := by
  rw [isKept, Bool.and_eq_true] at h ⊢
  exact ⟨h.1, hgrows.exists? h.2⟩

/-! ## Several artifacts -/

/-- A file to which no artifact goes stays as it is. -/
theorem contentAt?_writeAll (h : writeAll tree dir as = (.ok written, tree'))
    (hapart : ∀ a ∈ as, ∀ place, tree'.locate (a.destination dir) = .ok place → key place ≠ path) :
    tree'.contentAt? path = tree.contentAt? path := by
  induction as generalizing tree written with
  | nil =>
      cases h
      rfl
  | cons a as ih =>
      have hrest := fun b hb => hapart b (List.mem_cons_of_mem a hb)
      cases hkept : a.isKept tree dir with
      | true =>
          rw [writeAll_cons_of_kept hkept] at h
          exact ih h hrest
      | false =>
          obtain ⟨t, others, hone, hall, -⟩ := (writeAll_cons_eq_ok_iff hkept).1 h
          obtain ⟨place, -, hlocate, hcontent⟩ := contentAt?_write hone
          have hlocate' := (grows_of_writeAll hall).locate hlocate
          rw [ih hall hrest, hcontent, if_neg (hapart a List.mem_cons_self place hlocate')]

/-- Where all artifacts go to different places, each of them is kept or written on the way and then stays
as it was left. -/
theorem exists_contentAt?_of_writeAll (h : writeAll tree dir as = (.ok written, tree'))
    (hapart : as.Pairwise fun a b => tree'.Apart (a.destination dir) (b.destination dir))
    (ha : a ∈ as) :
    ∃ t place, tree.Grows t ∧ tree'.locate (a.destination dir) = .ok place
      ∧ (a.isKept t dir = true ∧ tree'.contentAt? (key place) = tree.contentAt? (key place)
        ∨ a.isKept t dir = false ∧ place ≠ []
          ∧ tree'.contentAt? (key place) = some (.text a.contents)) := by
  induction as generalizing tree written with
  | nil => cases ha
  | cons b as ih =>
      obtain ⟨hfirst, hapart⟩ := List.pairwise_cons.1 hapart
      cases hkept : b.isKept tree dir with
      | true =>
          rw [writeAll_cons_of_kept hkept] at h
          rcases List.mem_cons.1 ha with rfl | ha
          · have hgrows := grows_of_writeAll h
            have hexists := hkept
            rw [isKept, Bool.and_eq_true] at hexists
            obtain ⟨entry, hentry⟩ := FileTree.exists?_iff.1 hexists.2
            obtain ⟨place, hlocate, -⟩ := FileTree.find?_eq_some_iff.1 hentry
            refine ⟨tree, place, .refl _, hgrows.locate hlocate, .inl ⟨hkept, ?_⟩⟩
            exact contentAt?_writeAll h fun c hc other hother =>
              (hfirst c hc place other (hgrows.locate hlocate) hother).symm
          · exact ih h hapart ha
      | false =>
          obtain ⟨t, others, hone, hall, -⟩ := (writeAll_cons_eq_ok_iff hkept).1 h
          have hgrows := grows_of_writeAll hall
          obtain ⟨place, hne, hlocate, hcontent⟩ := contentAt?_write hone
          rcases List.mem_cons.1 ha with rfl | ha
          · refine ⟨tree, place, .refl _, hgrows.locate hlocate, .inr ⟨hkept, hne, ?_⟩⟩
            rw [contentAt?_writeAll hall fun c hc other hother =>
              (hfirst c hc place other (hgrows.locate hlocate) hother).symm, hcontent, if_pos rfl]
          · obtain ⟨u, place', hgrows', hlocate', hcontent'⟩ := ih hall hapart ha
            rw [hcontent,
              if_neg (hfirst a ha place place' (hgrows.locate hlocate) hlocate')] at hcontent'
            exact ⟨u, place', (grows_of_write hone).trans hgrows', hlocate', hcontent'⟩

end Artifact

end Configurator
