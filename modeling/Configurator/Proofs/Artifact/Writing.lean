import Configurator.Artifact
import Configurator.Proofs.Correspondence
import Configurator.Proofs.FileTree

/-!
# Writing artifacts again

What is generated for a project can be written again where it was written before, and that changes
nothing (`writeAll_concat_again`): an artifact that is written replaces a file, and of several artifacts
that go to one place the last one is what stands there in either case. The artifact that belongs to the
user is the last one and is only written where nothing is. It lies beside another one
(`exists_ofCatalog`), so that nothing is overlooked for want of a directory.
-/

namespace Configurator.Artifact

open FileTree (key Entry Content)

variable {tree tree' tree'' : FileTree} {dir : String} {a : Artifact} {as : List Artifact}
  {place : List String} {written : List String}

/-! ## One artifact -/

theorem grows_write (tree : FileTree) (dir : String) (a : Artifact) :
    tree.Grows (a.write tree dir).2 := by
  unfold write
  dsimp only
  have hgrows := tree.grows_makeDirectories ((Path.parent? (a.destination dir)).getD dir)
  split
  · next heq => rwa [heq] at hgrows
  · next t heq =>
    rw [heq] at hgrows
    split
    · exact hgrows
    · next t' hwrite => exact hgrows.trans (FileTree.grows_of_write hwrite)

theorem grows_of_write {result : Except FileTree.Fault Unit}
    (h : a.write tree dir = (result, tree')) : tree.Grows tree' := by
  have hgrows := grows_write tree dir a
  rwa [h] at hgrows

/-- Writing an artifact makes its directories and puts a file there. -/
theorem write_eq_ok (h : a.write tree dir = (.ok (), tree')) :
    ∃ t, tree.makeDirectories ((Path.parent? (a.destination dir)).getD dir) = (.ok (), t)
      ∧ t.write (a.destination dir) (.text a.contents) = .ok tree' := by
  unfold write at h
  dsimp only at h
  split at h
  · cases h
  · next t heq =>
    split at h
    · cases h
    · next t' hwrite =>
      cases h
      exact ⟨t, heq, hwrite⟩

/-- What is written stands at its place, and what stood elsewhere stands there still. -/
theorem exists_place_of_write (h : a.write tree dir = (.ok (), tree')) :
    ∃ place, tree'.locate (a.destination dir) = .ok place
      ∧ tree'.entry? place = some (.file (.text a.contents))
      ∧ ∀ other entry, tree.entry? other = some entry → key place ≠ key other →
        tree'.entry? other = some entry := by
  obtain ⟨t, hdirs, hwrite⟩ := write_eq_ok h
  have hgrows := FileTree.grows_of_write hwrite
  obtain ⟨place, hlocate, hplace, rfl⟩ := FileTree.write_eq_ok hwrite
  have hne : place ≠ [] := by
    refine FileTree.ne_nil_of_entry? (t := t) ?_
    rcases hplace with hplace | ⟨old, hplace⟩ <;> simp [hplace]
  refine ⟨place, hgrows.locate hlocate, FileTree.entry?_put_self hne _, ?_⟩
  intro other entry hother hkey
  rw [FileTree.entry?_put, if_neg fun hsame => hkey hsame.2]
  have hkept := FileTree.entry?_makeDirectories hother ((Path.parent? (a.destination dir)).getD dir)
  rwa [hdirs] at hkept

/-- Once an artifact was written, writing it again replaces a file. -/
theorem write_again (h : a.write tree dir = (.ok (), tree'))
    (hlocate : tree'.locate (a.destination dir) = .ok place) (hgrows : tree'.Grows tree'') :
    a.write tree'' dir = (.ok (), tree''.put place (.file (.text a.contents)))
      ∧ tree''.Grows (tree''.put place (.file (.text a.contents))) := by
  obtain ⟨t, hdirs, hwrite⟩ := write_eq_ok h
  obtain ⟨place', hlocate', hplace, -⟩ := exists_place_of_write h
  rw [hlocate, Except.ok.injEq] at hlocate'
  subst hlocate'
  obtain ⟨old, hold⟩ := hgrows.file place _ hplace
  have hagain := FileTree.makeDirectories_again hdirs
    ((FileTree.grows_of_write hwrite).trans hgrows)
  refine ⟨?_, FileTree.grows_put (.inr ⟨old, _, hold, rfl⟩)⟩
  unfold write
  dsimp only
  rw [hagain]
  dsimp only
  rw [FileTree.write_of_file (hgrows.locate hlocate) hold]

theorem filesBelow_write {path : String} {root : List String} (h : a.write tree dir = (.ok (), tree'))
    (hlocate : tree.locate path = .ok root) (hroot : tree.entry? root = some .directory)
    (hplace : ∀ place, tree'.locate (a.destination dir) = .ok place → ¬ FileTree.IsBelow root place) :
    tree'.filesBelow path = tree.filesBelow path := by
  obtain ⟨t, hdirs, hwrite⟩ := write_eq_ok h
  have hgrows := tree.grows_makeDirectories ((Path.parent? (a.destination dir)).getD dir)
  have hmade := FileTree.filesBelow_makeDirectories hlocate hroot
    ((Path.parent? (a.destination dir)).getD dir)
  rw [hdirs] at hgrows hmade
  exact (FileTree.filesBelow_write hwrite (hgrows.locate hlocate) (hgrows.directory root hroot)
    hplace).trans hmade

/-- Whether an artifact can be put into a directory by another spelling of its path, which leads to the
same place by way of the same directories. -/
structure SamePlace (t : FileTree) (dir dir' : String) (a : Artifact) : Prop where
  locate : ∀ t', t.Grows t' → t'.locate (a.destination dir') = t'.locate (a.destination dir)
  directories : ∀ t', t.Grows t' →
    t'.makeDirectories ((Path.parent? (a.destination dir')).getD dir')
      = t'.makeDirectories ((Path.parent? (a.destination dir)).getD dir)

section

variable {dir' : String}

theorem SamePlace.refl (tree : FileTree) (dir : String) (a : Artifact) : a.SamePlace tree dir dir :=
  ⟨fun _ _ => rfl, fun _ _ => rfl⟩

theorem SamePlace.find? (h : a.SamePlace tree dir dir') (hgrows : tree.Grows tree') :
    tree'.find? (a.destination dir') = tree'.find? (a.destination dir) := by
  rw [FileTree.find?, FileTree.find?, h.locate tree' hgrows]

theorem SamePlace.isKept (h : a.SamePlace tree dir dir') (hgrows : tree.Grows tree') :
    a.isKept tree' dir' = a.isKept tree' dir := by
  rw [Artifact.isKept, Artifact.isKept, FileTree.exists?, FileTree.exists?, h.find? hgrows]

theorem SamePlace.write (h : a.SamePlace tree dir dir') (hgrows : tree.Grows tree') :
    a.write tree' dir' = a.write tree' dir := by
  have hmade := tree'.grows_makeDirectories ((Path.parent? (a.destination dir)).getD dir)
  unfold Artifact.write
  dsimp only
  rw [h.directories tree' hgrows]
  cases heq : tree'.makeDirectories ((Path.parent? (a.destination dir)).getD dir) with
  | mk result t =>
      rw [heq] at hmade
      cases result with
      | error fault => rfl
      | ok u =>
          dsimp only
          rw [FileTree.write, FileTree.write, h.locate t (hgrows.trans hmade)]

end

/-! ## Several artifacts -/

theorem writeAll_cons (tree : FileTree) (dir : String) (a : Artifact) (as : List Artifact) :
    writeAll tree dir (a :: as) =
      if a.isKept tree dir then writeAll tree dir as
      else
        match a.write tree dir with
        | (.error fault, tree) => (.error (.generation (a.destination dir) fault), tree)
        | (.ok (), tree) =>
          ((writeAll tree dir as).1.map (a.destination dir :: ·), (writeAll tree dir as).2) := by
  rfl

theorem writeAll_cons_of_kept (h : a.isKept tree dir = true) :
    writeAll tree dir (a :: as) = writeAll tree dir as := by
  rw [writeAll_cons, if_pos h]

/-- What writing several artifacts comes to if the first one has to be written. -/
theorem writeAll_cons_eq_ok_iff (h : a.isKept tree dir = false) :
    writeAll tree dir (a :: as) = (.ok written, tree'')
      ↔ ∃ tree' others, a.write tree dir = (.ok (), tree')
          ∧ writeAll tree' dir as = (.ok others, tree'') ∧ written = a.destination dir :: others := by
  rw [writeAll_cons, if_neg (by simp [h])]
  cases hone : a.write tree dir with
  | mk result tree' =>
      cases result with
      | error fault => simp
      | ok u =>
          dsimp only
          cases hall : writeAll tree' dir as with
          | mk others t =>
              cases others with
              | error e => simp [hall, Except.map]
              | ok others => simp [hall, Except.map, and_comm, eq_comm]

/-- What writing several artifacts comes to if the first one goes where nothing is in a directory. -/
theorem writeAll_cons_of_none {as : List Artifact} {written : List String} {tree'' : FileTree}
    {dest up : String} (hdest : a.destination dir = dest) (hparent : Path.parent? dest = some up)
    (hdirs : tree.makeDirectories up = (.ok (), tree'))
    (hlocate : tree'.locate dest = .ok place) (hplace : tree'.entry? place = none)
    (hdir : tree'.entry? place.dropLast = some .directory)
    (hrest : writeAll (tree'.put place (.file (.text a.contents))) dir as = (.ok written, tree'')) :
    writeAll tree dir (a :: as) = (.ok (dest :: written), tree'') := by
  subst hdest
  have hgrows := tree.grows_makeDirectories up
  rw [hdirs] at hgrows
  have hkept : a.isKept tree dir = false := by
    rw [isKept, Bool.and_eq_false_iff]
    refine .inr (Bool.eq_false_iff.2 fun hexists => ?_)
    obtain ⟨entry, hentry⟩ := FileTree.exists?_iff.1 (hgrows.exists? hexists)
    obtain ⟨place', hlocate', hplace'⟩ := FileTree.find?_eq_some_iff.1 hentry
    rw [hlocate, Except.ok.injEq] at hlocate'
    rw [← hlocate', hplace] at hplace'
    cases hplace'
  refine (writeAll_cons_eq_ok_iff hkept).2 ⟨_, _, ?_, hrest, rfl⟩
  unfold write
  dsimp only
  rw [hparent, Option.getD_some, hdirs]
  dsimp only
  rw [FileTree.write_of_none hlocate hplace hdir]

theorem grows_writeAll (tree : FileTree) (dir : String) (as : List Artifact) :
    tree.Grows (writeAll tree dir as).2 := by
  induction as generalizing tree with
  | nil => exact .refl tree
  | cons a as ih =>
      have hone := grows_write tree dir a
      rw [writeAll_cons]
      split
      · exact ih tree
      · split
        · next heq => rwa [heq] at hone
        · next t heq =>
          rw [heq] at hone
          exact hone.trans (ih t)

theorem grows_of_writeAll {result : Except Error (List String)}
    (h : writeAll tree dir as = (result, tree')) : tree.Grows tree' := by
  have hgrows := grows_writeAll tree dir as
  rwa [h] at hgrows

/-- The files below a directory stay the same if no artifact goes there. -/
theorem filesBelow_writeAll {as : List Artifact} {written : List String} {path : String}
    {root : List String} (h : writeAll tree dir as = (.ok written, tree'))
    (hlocate : tree.locate path = .ok root) (hroot : tree.entry? root = some .directory)
    (hplaces : ∀ a ∈ as, ∀ place, tree'.locate (a.destination dir) = .ok place →
      ¬ FileTree.IsBelow root place) : tree'.filesBelow path = tree.filesBelow path := by
  induction as generalizing tree written with
  | nil =>
      cases h
      rfl
  | cons a as ih =>
      have hrest := fun b hb => hplaces b (List.mem_cons_of_mem a hb)
      cases hkept : a.isKept tree dir with
      | true =>
          rw [writeAll_cons_of_kept hkept] at h
          exact ih h hlocate hroot hrest
      | false =>
          obtain ⟨t, others, hone, hall, -⟩ := (writeAll_cons_eq_ok_iff hkept).1 h
          have hgrows := grows_of_write hone
          refine (ih hall (hgrows.locate hlocate) (hgrows.directory root hroot) hrest).trans ?_
          exact filesBelow_write hone hlocate hroot fun place hplace =>
            hplaces a List.mem_cons_self place ((grows_of_writeAll hall).locate hplace)

/-- Artifacts are written in the same way by other spellings of their paths. -/
theorem exists_writeAll_of_samePlace {dir' : String} {t : FileTree}
    (hplaces : ∀ a ∈ as, a.SamePlace t dir dir') (hgrows : t.Grows tree)
    (h : writeAll tree dir as = (.ok written, tree')) :
    ∃ written', writeAll tree dir' as = (.ok written', tree') := by
  induction as generalizing tree written with
  | nil =>
      cases h
      exact ⟨_, rfl⟩
  | cons a as ih =>
      have hplace := hplaces a List.mem_cons_self
      have hrest := fun b hb => hplaces b (List.mem_cons_of_mem a hb)
      have hkeeps := hplace.isKept hgrows
      cases hkept : a.isKept tree dir with
      | true =>
          rw [writeAll_cons_of_kept hkept] at h
          rw [writeAll_cons_of_kept (hkeeps.trans hkept)]
          exact ih hrest hgrows h
      | false =>
          obtain ⟨u, others, hone, hall, -⟩ := (writeAll_cons_eq_ok_iff hkept).1 h
          obtain ⟨others', hall'⟩ := ih hrest (hgrows.trans (grows_of_write hone)) hall
          exact ⟨_, (writeAll_cons_eq_ok_iff (hkeeps.trans hkept)).2
            ⟨u, others', (hplace.write hgrows).trans hone, hall', rfl⟩⟩

/-- What stands at a place to which none of the artifacts goes stays there. -/
theorem entry?_writeAll {entry : Entry} (h : writeAll tree dir as = (.ok written, tree'))
    (hentry : tree.entry? place = some entry)
    (hapart : ∀ a ∈ as, ∀ other, tree'.locate (a.destination dir) = .ok other →
      key other ≠ key place) : tree'.entry? place = some entry := by
  induction as generalizing tree written with
  | nil =>
      cases h
      exact hentry
  | cons a as ih =>
      have hrest : ∀ b ∈ as, ∀ other, tree'.locate (b.destination dir) = .ok other →
          key other ≠ key place := fun b hb => hapart b (List.mem_cons_of_mem _ hb)
      cases hkept : a.isKept tree dir with
      | true =>
          rw [writeAll_cons_of_kept hkept] at h
          exact ih h hentry hrest
      | false =>
          obtain ⟨t, others, hone, hall, -⟩ := (writeAll_cons_eq_ok_iff hkept).1 h
          obtain ⟨other, hlocate, -, hkeeps⟩ := exists_place_of_write hone
          exact ih hall (hkeeps place entry hentry
            (hapart a List.mem_cons_self other ((grows_of_writeAll hall).locate hlocate))) hrest

/-- Where artifacts go to different places unless they are the same, each that is not left to the user is
found where it was put. -/
theorem find?_writeAll_of_same (h : writeAll tree dir as = (.ok written, tree'))
    (hapart : as.Pairwise fun a b => tree'.Apart (a.destination dir) (b.destination dir) ∨ a = b)
    (ha : a ∈ as) (howned : a.userOwned = false) :
    tree'.find? (a.destination dir) = some (.file (.text a.contents)) := by
  induction as generalizing tree written with
  | nil => cases ha
  | cons b as ih =>
      obtain ⟨hfirst, hapart⟩ := List.pairwise_cons.1 hapart
      cases hkept : b.isKept tree dir with
      | true =>
          rw [writeAll_cons_of_kept hkept] at h
          refine ih h hapart ((List.mem_cons.1 ha).resolve_left ?_)
          rintro rfl
          simp [isKept, howned] at hkept
      | false =>
          obtain ⟨t, others, hone, hall, -⟩ := (writeAll_cons_eq_ok_iff hkept).1 h
          by_cases hlater : a ∈ as
          · exact ih hall hapart hlater
          · obtain rfl := (List.mem_cons.1 ha).resolve_right hlater
            have hgrows := grows_of_writeAll hall
            obtain ⟨place, hlocate, hplace, -⟩ := exists_place_of_write hone
            refine FileTree.find?_eq_some_iff.2 ⟨place, hgrows.locate hlocate, ?_⟩
            refine entry?_writeAll hall hplace fun c hc other hother => ?_
            rcases hfirst c hc with hapart | rfl
            · exact (hapart place other (hgrows.locate hlocate) hother).symm
            · exact absurd hc hlater

/-- Where all artifacts go to different places, each that is not left to the user is found where it was
put. -/
theorem find?_writeAll (h : writeAll tree dir as = (.ok written, tree'))
    (hapart : as.Pairwise fun a b => tree'.Apart (a.destination dir) (b.destination dir))
    (ha : a ∈ as) (howned : a.userOwned = false) :
    tree'.find? (a.destination dir) = some (.file (.text a.contents)) :=
  find?_writeAll_of_same h (hapart.imp .inl) ha howned

/-- Artifacts that belong to no user are written again as they were. At each place stands what stood
there before, if it was not written the first time, or else what was written there. -/
theorem writeAll_again (howned : ∀ a ∈ as, a.userOwned = false)
    (h : writeAll tree dir as = (.ok written, tree')) (hgrows : tree'.Grows tree'') :
    ∃ t, writeAll tree'' dir as = (.ok written, t) ∧ tree''.Grows t
      ∧ ∀ place, t.entry? place = tree'.entry? place
        ∨ t.entry? place = tree''.entry? place
          ∧ ∀ entry, tree.entry? place = some entry → tree'.entry? place = some entry := by
  induction as generalizing tree tree'' written with
  | nil =>
      cases h
      exact ⟨tree'', rfl, .refl _, fun place => .inr ⟨rfl, fun entry => id⟩⟩
  | cons a as ih =>
      have hkept : ∀ t, a.isKept t dir = false := fun t => by
        simp [isKept, howned a List.mem_cons_self]
      obtain ⟨t, others, hone, hall, rfl⟩ := (writeAll_cons_eq_ok_iff (hkept tree)).1 h
      obtain ⟨place, hlocate, hplace, hother⟩ := exists_place_of_write hone
      obtain ⟨hagain, hput⟩ := write_again hone hlocate ((grows_of_writeAll hall).trans hgrows)
      obtain ⟨u, hwrite, hgrown, hsame⟩ :=
        ih (fun b hb => howned b (List.mem_cons_of_mem _ hb)) hall (hgrows.trans hput)
      refine ⟨u, (writeAll_cons_eq_ok_iff (hkept tree'')).2 ⟨_, _, hagain, hwrite, rfl⟩,
        hput.trans hgrown, fun p => ?_⟩
      rcases hsame p with hsame | ⟨hsame, hbefore⟩
      · exact .inl hsame
      rw [FileTree.entry?_put] at hsame
      split at hsame
      · next hkey =>
        have hne : place ≠ [] := FileTree.ne_nil_of_entry? (t := t) (by simp [hplace])
        have hthere : t.entry? p = some (.file (.text a.contents)) := by
          rw [← FileTree.entry?_congr hne hkey.1 hkey.2, hplace]
        exact .inl (hsame.trans (hbefore _ hthere).symm)
      · next hkey =>
        refine .inr ⟨hsame, fun entry hentry => hbefore entry ?_⟩
        by_cases hroot : p = []
        · subst hroot
          exact hentry
        · exact hother p entry hentry fun heq => hkey ⟨hroot, heq⟩

/-- Artifacts are written one list after the other. -/
theorem writeAll_append_eq_ok_iff {bs : List Artifact} :
    writeAll tree dir (as ++ bs) = (.ok written, tree'')
      ↔ ∃ tree' first second, writeAll tree dir as = (.ok first, tree')
          ∧ writeAll tree' dir bs = (.ok second, tree'') ∧ written = first ++ second := by
  induction as generalizing tree written with
  | nil =>
      constructor
      · intro h
        exact ⟨tree, [], written, rfl, h, rfl⟩
      · rintro ⟨tree', first, second, hfirst, hsecond, rfl⟩
        cases hfirst
        exact hsecond
  | cons a as ih =>
      rw [List.cons_append]
      cases hkept : a.isKept tree dir with
      | true => rw [writeAll_cons_of_kept hkept, writeAll_cons_of_kept hkept, ih]
      | false =>
          simp only [writeAll_cons_eq_ok_iff hkept, ih]
          constructor
          · rintro ⟨t, others, hone, ⟨tree', first, second, hfirst, hsecond, rfl⟩, rfl⟩
            exact ⟨tree', _, second, ⟨t, first, hone, hfirst, rfl⟩, hsecond, rfl⟩
          · rintro ⟨tree', _, second, ⟨t, first, hone, hfirst, rfl⟩, hsecond, rfl⟩
            exact ⟨t, _, hone, ⟨tree', first, second, hfirst, hsecond, rfl⟩, rfl⟩

/-- The path of an artifact that was written leads to a place. -/
theorem exists_locate_of_writeAll (howned : ∀ a ∈ as, a.userOwned = false)
    (h : writeAll tree dir as = (.ok written, tree')) (ha : a ∈ as) :
    ∃ place, tree'.locate (a.destination dir) = .ok place := by
  induction as generalizing tree written with
  | nil => cases ha
  | cons b as ih =>
      have hkept : b.isKept tree dir = false := by simp [isKept, howned b List.mem_cons_self]
      obtain ⟨t, others, hone, hall, rfl⟩ := (writeAll_cons_eq_ok_iff hkept).1 h
      rcases List.mem_cons.1 ha with rfl | ha
      · obtain ⟨place, hlocate, -⟩ := exists_place_of_write hone
        exact ⟨place, (grows_of_writeAll hall).locate hlocate⟩
      · exact ih (fun c hc => howned c (List.mem_cons_of_mem _ hc)) hall ha

/-! ## An artifact of the user behind others -/

/-- Whether one artifact can be found wherever some others are, if it can be found in the end. -/
def IsBeside (dir : String) (as : List Artifact) (a : Artifact) : Prop :=
  ∀ t t' : FileTree, (∀ b ∈ as, ∃ place, t.locate (b.destination dir) = .ok place) → t.Grows t' →
    (∃ place, t'.locate (a.destination dir) = .ok place) →
      ∃ place, t.locate (a.destination dir) = .ok place

/-- Behind a run there is something where the artifact goes. -/
theorem exists?_of_writeAll_singleton (h : writeAll tree dir [a] = (.ok written, tree')) :
    tree'.exists? (a.destination dir) = true := by
  cases hkept : a.isKept tree dir with
  | true =>
      rw [writeAll_cons_of_kept hkept] at h
      cases h
      rw [isKept, Bool.and_eq_true] at hkept
      exact hkept.2
  | false =>
      obtain ⟨t, others, hone, hrest, -⟩ := (writeAll_cons_eq_ok_iff hkept).1 h
      cases hrest
      obtain ⟨place, hlocate, hplace, -⟩ := exists_place_of_write hone
      exact FileTree.exists?_iff.2 ⟨_, FileTree.find?_eq_some_iff.2 ⟨place, hlocate, hplace⟩⟩

/-- The user's artifact is only written where nothing is. -/
theorem entry?_of_writeAll_singleton (howned : a.userOwned = true)
    (hlocate : tree.locate (a.destination dir) = .ok place)
    (h : writeAll tree dir [a] = (.ok written, tree')) {other : List String} {entry : Entry}
    (hother : tree.entry? other = some entry) : tree'.entry? other = some entry := by
  cases hkept : a.isKept tree dir with
  | true =>
      rw [writeAll_cons_of_kept hkept] at h
      cases h
      exact hother
  | false =>
      obtain ⟨t, others, hone, hrest, -⟩ := (writeAll_cons_eq_ok_iff hkept).1 h
      cases hrest
      obtain ⟨place', hlocate', -, hkeeps⟩ := exists_place_of_write hone
      have hsame := (grows_of_write hone).locate hlocate
      rw [hlocate', Except.ok.injEq] at hsame
      subst hsame
      have hnone : tree.entry? place' = none := by
        rw [isKept, howned, Bool.true_and, ← Bool.not_eq_true, FileTree.exists?_iff] at hkept
        by_contra hsome
        obtain ⟨e, he⟩ := Option.ne_none_iff_exists'.1 hsome
        exact hkept ⟨e, FileTree.find?_eq_some_iff.2 ⟨place', hlocate, he⟩⟩
      by_cases hroot : other = []
      · subst hroot
        exact hother
      · refine hkeeps other entry hother fun hkey => ?_
        have hne : place' ≠ [] := FileTree.ne_nil_of_entry? (t := tree) (by simp [hnone])
        rw [FileTree.entry?_congr hne hroot hkey, hother] at hnone
        cases hnone

/-- The path of each of the artifacts leads to a place once they have been written. -/
theorem exists_locate_of_writeAll_concat (howned : ∀ b ∈ as, b.userOwned = false)
    (h : writeAll tree dir (as ++ [a]) = (.ok written, tree')) {b : Artifact} (hb : b ∈ as ++ [a]) :
    ∃ place, tree'.locate (b.destination dir) = .ok place := by
  obtain ⟨t, first, second, hfirst, hsecond, -⟩ := writeAll_append_eq_ok_iff.1 h
  rcases List.mem_append.1 hb with hb | hb
  · obtain ⟨place, hlocate⟩ := exists_locate_of_writeAll howned hfirst hb
    exact ⟨place, (grows_of_writeAll hsecond).locate hlocate⟩
  · rw [List.mem_singleton.1 hb]
    obtain ⟨entry, hentry⟩ := FileTree.exists?_iff.1 (exists?_of_writeAll_singleton hsecond)
    obtain ⟨place, hlocate, -⟩ := FileTree.find?_eq_some_iff.1 hentry
    exact ⟨place, hlocate⟩

/-- Artifacts of which the last one belongs to the user are written again, and then each place is as it
was after they were written first, or as it was before they were written again. -/
theorem writeAll_concat_again (howned : ∀ b ∈ as, b.userOwned = false) (ha : a.userOwned = true)
    (hbeside : IsBeside dir as a) (h : writeAll tree dir (as ++ [a]) = (.ok written, tree'))
    (hgrows : tree'.Grows tree'') :
    ∃ again t, writeAll tree'' dir (as ++ [a]) = (.ok again, t) ∧ tree''.Grows t
      ∧ ∀ place, t.entry? place = tree'.entry? place ∨ t.entry? place = tree''.entry? place := by
  obtain ⟨t₁, first, second, hfirst, hsecond, -⟩ := writeAll_append_eq_ok_iff.1 h
  have hlast := grows_of_writeAll hsecond
  have hexists := exists?_of_writeAll_singleton hsecond
  obtain ⟨place, hlocate⟩ : ∃ place, t₁.locate (a.destination dir) = .ok place := by
    refine hbeside t₁ tree' (fun b hb => exists_locate_of_writeAll howned hfirst hb) hlast ?_
    obtain ⟨entry, hentry⟩ := FileTree.exists?_iff.1 hexists
    obtain ⟨place, hlocate, -⟩ := FileTree.find?_eq_some_iff.1 hentry
    exact ⟨place, hlocate⟩
  obtain ⟨t, hagain, hgrown, hsame⟩ := writeAll_again howned hfirst (hlast.trans hgrows)
  have hkept : a.isKept t dir = true := by
    rw [isKept, ha, Bool.true_and]
    exact (hgrows.trans hgrown).exists? hexists
  have hend : writeAll t dir [a] = (.ok [], t) := by
    rw [writeAll_cons_of_kept hkept]
    rfl
  refine ⟨_, t, writeAll_append_eq_ok_iff.2 ⟨t, first, [], hagain, hend, rfl⟩, hgrown, fun p => ?_⟩
  rcases hsame p with hp | ⟨hp, -⟩
  · cases hbefore : t₁.entry? p with
    | some entry =>
        refine .inl (hp.trans ?_)
        rw [hbefore, entry?_of_writeAll_singleton ha hlocate hsecond hbefore]
    | none =>
        refine .inr ?_
        rw [hp, hbefore]
        cases hthere : tree''.entry? p with
        | none => rfl
        | some entry =>
            obtain ⟨entry', hentry'⟩ := hgrown.exists_entry hthere
            rw [hp, hbefore] at hentry'
            cases hentry'
  · exact .inr hp

end Configurator.Artifact

namespace Configurator

/-! ## What is generated for a project -/

/-- An ending without a slash is the end of what a path is joined to. -/
theorem Path.exists_join_append (base stem : String) : ∃ stem', ∀ ending, '/' ∉ ending.toList →
    join base (stem ++ ending) = stem' ++ ending := by
  by_cases habsolute : isAbsolute stem ∨ base = ""
  · refine ⟨stem, fun ending h => ?_⟩
    rw [join, FileTree.isAbsolute_append stem h, if_pos habsolute]
  · by_cases hslash : base.toList.getLast? = some '/'
    · refine ⟨base ++ stem, fun ending h => ?_⟩
      rw [join, FileTree.isAbsolute_append stem h, if_neg habsolute, if_pos hslash,
        String.append_assoc]
    · refine ⟨base ++ "/" ++ stem, fun ending h => ?_⟩
      rw [join, FileTree.isAbsolute_append stem h, if_neg habsolute, if_neg hslash,
        ← String.append_assoc]

namespace TemplateSet

variable {tree : FileTree} {family : Template.Family} {project : String} {dir : Option String}
  {set : TemplateSet}

/-- The templates of a directory are the built-in ones with the texts that are read there. -/
theorem ofDirectory_eq_ok_iff {dir : String} :
    ofDirectory tree family project dir = .ok set
      ↔ ∃ templates, List.Forall₂ (fun t t' => ∃ text,
            tree.read (sourceOf tree family dir t.name) = .ok text ∧ t' = { t with text })
          (builtin family project).templates templates
        ∧ set = ⟨family, templates⟩ := by
  have hone : ∀ t t' : Template, (do
      let path := sourceOf tree family dir t.name
      if !tree.isFile path then throw (.missingTemplate path)
      let text ← (tree.read path).mapError Error.io
      return { t with text }) = Except.ok t'
        ↔ ∃ text, tree.read (sourceOf tree family dir t.name) = .ok text ∧ t' = { t with text } := by
    intro t t'
    dsimp only
    cases hfile : tree.isFile (sourceOf tree family dir t.name) with
    | true =>
        simp only [Bool.not_true, Bool.false_eq_true, if_false, Outcome.bind_eq_ok_iff,
          Outcome.mapError_eq_ok_iff]
        refine exists_congr fun text => and_congr_right fun _ => ?_
        simp [pure, Except.pure, eq_comm]
    | false =>
        simp only [Bool.not_false, if_true]
        constructor
        · intro h
          cases h
        · rintro ⟨text, hread, -⟩
          rw [FileTree.isFile_of_read hread] at hfile
          cases hfile
  unfold ofDirectory
  simp only [Outcome.bind_eq_ok_iff, Outcome.mapM_eq_ok_iff, hone]
  refine exists_congr fun templates => and_congr_right fun _ => ?_
  simp [pure, Except.pure, eq_comm]

/-- The templates of a set are the built-in ones, perhaps with other texts. -/
theorem exists_of_load (h : load tree family project dir = .ok set) :
    List.Forall₂ (fun t t' => ∃ text, t' = { t with text }) (builtin family project).templates
      set.templates := by
  unfold load at h
  split at h
  · obtain ⟨templates, htemplates, rfl⟩ := ofDirectory_eq_ok_iff.1 h
    refine htemplates.imp ?_
    rintro t t' ⟨text, -, rfl⟩
    exact ⟨text, rfl⟩
  · cases h
    exact List.forall₂_same.2 fun t _ => ⟨t.text, rfl⟩

/-- Whether the files that templates may come from are the same in two trees. -/
def ReadsAlike (family : Template.Family) (project : String) (dir : Option String)
    (tree tree' : FileTree) : Prop :=
  ∀ d ∈ dir, ∀ t ∈ (builtin family project).templates,
    ∀ path ∈ [Path.join (Path.join d family.name) t.name, Path.join d t.name],
      tree'.find? path = tree.find? path

theorem load_of_readsAlike {tree' : FileTree} (h : load tree family project dir = .ok set)
    (halike : ReadsAlike family project dir tree tree') : load tree' family project dir = .ok set := by
  unfold load at h ⊢
  split at h
  · next d =>
    obtain ⟨templates, htemplates, rfl⟩ := ofDirectory_eq_ok_iff.1 h
    refine ofDirectory_eq_ok_iff.2 ⟨templates, ?_, rfl⟩
    refine (mem_of_forall₂ htemplates).imp ?_
    rintro t t' ⟨ht, -, text, hread, rfl⟩
    have hsame := halike d rfl t ht
    have hfile : tree'.isFile (Path.join (Path.join d family.name) t.name)
        = tree.isFile (Path.join (Path.join d family.name) t.name) := by
      rw [FileTree.isFile, FileTree.isFile, hsame _ (by simp)]
    have hsource : sourceOf tree' family d t.name = sourceOf tree family d t.name := by
      unfold sourceOf
      dsimp only
      rw [hfile]
    have hmem : sourceOf tree family d t.name
        ∈ [Path.join (Path.join d family.name) t.name, Path.join d t.name] := by
      unfold sourceOf
      dsimp only
      split <;> simp
    exact ⟨text, by rwa [hsource, FileTree.read_congr (hsame _ hmem)], rfl⟩
  · exact h

/-- The last template is the only one that belongs to the user, and its file lies beside that of another
one. -/
theorem exists_templates (h : load tree family project dir = .ok set) :
    ∃ make own user ending, set.templates = [make, own, user]
      ∧ make.userOwned = false ∧ own.userOwned = false ∧ user.userOwned = true
      ∧ FileTree.IsEnding ending ∧ own.output = Path.join project (project ++ ending)
      ∧ user.output = Path.join project (project ++ "_user.mk") := by
  have hload := exists_of_load h
  cases family <;>
  · obtain ⟨make, others, ⟨text, rfl⟩, hothers, heq⟩ := List.forall₂_cons_left_iff.1 hload
    obtain ⟨own, users, ⟨text', rfl⟩, husers, rfl⟩ := List.forall₂_cons_left_iff.1 hothers
    obtain ⟨user, none, ⟨text'', rfl⟩, hnone, rfl⟩ := List.forall₂_cons_left_iff.1 husers
    cases hnone
    exact ⟨_, _, _, _, heq, rfl, rfl, rfl, ⟨by decide, by decide⟩, rfl, rfl⟩

end TemplateSet

namespace Artifact

theorem isEnding_user : FileTree.IsEnding "_user.mk" :=
  ⟨by decide, by decide⟩

/-- What is generated for a project ends in the artifact of the user, and no other one belongs to the
user. -/
theorem exists_ofCatalog {tree' : FileTree} {p : Project} {templateDir : Option String}
    {templates : TemplateSet} (h : TemplateSet.load tree' p.family p.name templateDir = .ok templates)
    (tree : FileTree) (configDir : String) (c : Catalog) (index : FileIndex) :
    ∃ as a, ofCatalog tree p templates configDir c index = as ++ [a]
      ∧ (∀ b ∈ as, b.userOwned = false) ∧ a.userOwned = true ∧ ∀ dir, IsBeside dir as a := by
  obtain ⟨make, own, user, ending, htemplates, hmake, hown, huser, hending, houtput, houtput'⟩ :=
    TemplateSet.exists_templates h
  generalize htokens : TokenTable.ofProject templates.family p c.syncAutoenabled.2
    (SourceLists.ofCatalog tree p c.syncAutoenabled.2 index).1 = tokens
  refine ⟨ofHeaders p configDir c.syncAutoenabled.2 ++ [ofTemplate tokens make, ofTemplate tokens own],
    ofTemplate tokens user, ?_, fun b hb => ?_, huser, fun dir t t' hfound hgrows hlater => ?_⟩
  · unfold ofCatalog
    dsimp only
    rw [htemplates, htokens]
    simp
  · rcases List.mem_append.1 hb with hb | hb
    · obtain ⟨path, -, hb⟩ := List.mem_filterMap.1 hb
      obtain ⟨h, -, rfl⟩ := Option.map_eq_some_iff.1 hb
      rfl
    · simp only [List.mem_cons, List.not_mem_nil, or_false] at hb
      rcases hb with rfl | rfl
      · exact hmake
      · exact hown
  · obtain ⟨stem, hstem⟩ := Path.exists_join_append p.name p.name
    obtain ⟨stem', hstem'⟩ := Path.exists_join_append dir stem
    obtain ⟨place, hlocate⟩ := hfound (ofTemplate tokens own) (by simp)
    rw [destination, ofTemplate, houtput, hstem _ hending.slash, hstem' _ hending.slash] at hlocate
    rw [destination, ofTemplate, houtput', hstem _ isEnding_user.slash,
      hstem' _ isEnding_user.slash] at hlater ⊢
    exact FileTree.exists_locate_of_beside hending isEnding_user hlocate hgrows hlater

end Artifact

end Configurator
