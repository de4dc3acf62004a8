import Configurator.Command.Creating
import Configurator.Proofs.Path.Stripping
import Configurator.Proofs.Places
import Configurator.Proofs.Project.Store

/-!
# Paths in descriptors

A new project has absolute paths, and one that was loaded has paths that are absolute or lead on from the
directory of its descriptor (`Command.NewProject.leadsFrom_toProject`, `Project.leadsFrom_of_load`).
Saving such a project and loading it again moves neither of its paths, and saving it once more writes the
same descriptor but for the time (`Project.save_load_save`).
-/

namespace Configurator

namespace Project

variable {p saved : Project} {tree tree' : FileTree} {base path descriptor : String} {now : Instant}

/-- Whether a path is absolute or leads on from a directory. -/
def LeadsFrom (base path : String) : Prop :=
  Path.isAbsolute path = true ∨ Path.components base <+: Path.components path

instance (base path : String) : Decidable (LeadsFrom base path) :=
  inferInstanceAs (Decidable (_ ∨ _))

/-- Whether two projects differ at most in how their paths are written. -/
structure SamePlaces (p q : Project) : Prop where
  sourceRoot : Path.components q.sourceRoot = Path.components p.sourceRoot
  outputDir : Path.components q.outputDir = Path.components p.outputDir
  rest : q = { p with sourceRoot := q.sourceRoot, outputDir := q.outputDir }

/-! ## One path -/

/-- What a descriptor says leads on from its directory. -/
theorem leadsFrom_resolvePath (base path : String) : LeadsFrom base (resolvePath base path) := by
  unfold resolvePath
  split
  · next habsolute => exact .inl habsolute
  · next hrelative =>
    rw [Bool.not_eq_true] at hrelative
    by_cases hbase : base = ""
    · exact .inr (hbase ▸ List.nil_prefix)
    · exact .inr ⟨_, (Path.behind_join hbase hrelative).components_eq.symm⟩

/-- A path that was stored leads to the same place, and is stored as it was the next time. -/
theorem resolvePath_storePath (hbase : base ≠ "") (h : LeadsFrom base path) :
    Path.components (resolvePath base (storePath base path)) = Path.components path
      ∧ storePath base (resolvePath base (storePath base path)) = storePath base path := by
  unfold resolvePath storePath
  by_cases hprefix : Path.components base <+: Path.components path
  · obtain ⟨rel, hrel, hrelative, hcomponents, hagain⟩ := Path.exists_stripPrefix? hbase hprefix
    rw [hrel, Option.getD_some, if_neg (by simp [hrelative]), hagain]
    exact ⟨hcomponents, rfl⟩
  · have hnone : Path.stripPrefix? base path = none := by
      rw [Option.eq_none_iff_forall_ne_some]
      exact fun rel hrel => hprefix (Path.prefix_of_stripPrefix? hrel)
    rw [hnone, Option.getD_none, if_pos (h.resolve_right hprefix), hnone]
    exact ⟨rfl, rfl⟩

/-! ## Both paths of a project -/

theorem leadsFrom_of_load (hbase : Path.parent? descriptor = some base)
    (h : load tree descriptor = .ok p) : LeadsFrom base p.sourceRoot ∧ LeadsFrom base p.outputDir := by
  obtain ⟨text, -, h⟩ := Outcome.bind_eq_ok_iff.1 h
  obtain ⟨q, -, h⟩ := Outcome.bind_eq_ok_iff.1 h
  cases h
  rw [resolvePaths, hbase]
  exact ⟨leadsFrom_resolvePath _ _, leadsFrom_resolvePath _ _⟩

/-- Opening a stored project again moves none of its paths. -/
theorem samePlaces_reopened (hbase : Path.parent? descriptor = some base)
    (hsource : LeadsFrom base p.sourceRoot) (houtput : LeadsFrom base p.outputDir) :
    p.SamePlaces (p.reopened descriptor)
      ∧ (p.reopened descriptor).storePaths descriptor = p.storePaths descriptor := by
  by_cases hempty : base = ""
  · subst hempty
    have hsame : ∀ path, resolvePath "" path = path := fun path => by
      rw [resolvePath, Path.join_empty, ite_self]
    have hreopened : p.reopened descriptor = p := by
      rw [reopened, reopenedPath, reopenedPath, hbase]
      simp only [if_pos, hsame]
    rw [hreopened]
    exact ⟨⟨rfl, rfl, rfl⟩, rfl⟩
  · have hpath : ∀ path, reopenedPath descriptor path
        = resolvePath base (storePath base path) := fun path => by
      rw [reopenedPath, hbase]
      exact congrArg (resolvePath base) (if_neg hempty)
    obtain ⟨hsource, hsource'⟩ := resolvePath_storePath hempty hsource
    obtain ⟨houtput, houtput'⟩ := resolvePath_storePath hempty houtput
    rw [reopened, hpath, hpath]
    refine ⟨⟨hsource, houtput, rfl⟩, ?_⟩
    simp only [storePaths, hbase, if_neg hempty, hsource', houtput']

/-- A descriptor that was written can be written again. -/
theorem exists_save_again (h : p.save now tree descriptor = .ok (saved, tree')) (q : Project)
    (later : Instant) :
    ∃ tree'', q.save later tree' descriptor = .ok ({ q with savedAt := some later }, tree'')
      ∧ tree''.read descriptor
        = .ok ({ q with savedAt := some later }.storePaths descriptor).write := by
  obtain ⟨t, hwrite, h⟩ := Outcome.bind_eq_ok_iff.1 h
  cases h
  obtain ⟨place, hlocate, hplace⟩ := FileTree.read_eq_ok_iff.1
    (FileTree.read_of_write (Outcome.mapError_eq_ok_iff.1 hwrite))
  have hagain : FileTree.write _ descriptor
      (.text ({ q with savedAt := some later }.storePaths descriptor).write) = .ok _ :=
    FileTree.write_of_file hlocate hplace
  exact ⟨_, Outcome.bind_eq_ok_iff.2 ⟨_, Outcome.mapError_eq_ok_iff.2 hagain, rfl⟩,
    FileTree.read_of_write hagain⟩

theorem storePaths_savedAt (p : Project) (descriptor : String) (later : Instant) :
    { p with savedAt := some later }.storePaths descriptor
      = { p.storePaths descriptor with savedAt := some later } := by
  unfold storePaths
  split
  · rfl
  · split <;> rfl

/-- A project whose paths are absolute or lead on from the directory of its descriptor is the same once
it was saved and loaded, but for how its paths are written, and its descriptor is the same when it is
saved once more, but for the time. -/
theorem save_load_save (hbase : Path.parent? descriptor = some base)
    (hsource : LeadsFrom base p.sourceRoot) (houtput : LeadsFrom base p.outputDir)
    (hsave : p.save now tree descriptor = .ok (saved, tree'))
    (hjson : parse (saved.storePaths descriptor).write = .ok (saved.storePaths descriptor)) :
    tree'.read descriptor = .ok (saved.storePaths descriptor).write
      ∧ ∃ loaded, load tree' descriptor = .ok loaded ∧ saved.SamePlaces loaded
        ∧ ∀ later, ∃ again tree'', loaded.save later tree' descriptor = .ok (again, tree'')
          ∧ tree''.read descriptor
            = .ok { saved.storePaths descriptor with savedAt := some later }.write := by
  obtain ⟨t, hwrite, h⟩ := Outcome.bind_eq_ok_iff.1 hsave
  cases h
  have hread := FileTree.read_of_write (Outcome.mapError_eq_ok_iff.1 hwrite)
  obtain ⟨hsame, hstored⟩ :=
    samePlaces_reopened (p := { p with savedAt := some now }) hbase hsource houtput
  refine ⟨hread, { p with savedAt := some now }.reopened descriptor, ?_, hsame, fun later => ?_⟩
  · rw [← resolvePaths_storePaths]
    exact Outcome.bind_eq_ok_iff.2 ⟨_, Outcome.mapError_eq_ok_iff.2 hread,
      Outcome.bind_eq_ok_iff.2 ⟨_, hjson, rfl⟩⟩
  · obtain ⟨tree'', hagain, hread''⟩ :=
      exists_save_again hsave ({ p with savedAt := some now }.reopened descriptor) later
    rw [storePaths_savedAt, hstored] at hread''
    exact ⟨_, tree'', hagain, hread''⟩

/-- A descriptor in a directory, of a project of which one path leads on from there, written with a dot
and slashes that do not count, and the other is absolute. -/
theorem save_load_save_inside :
    let tree : FileTree := ⟨.ofList [("/w", .directory)], []⟩
    let p : Project :=
      { version := 2, name := "p", sourceRoot := "w//./s/", outputDir := "/o", cpu := {} }
    ∃ saved tree', p.save ⟨0, 0⟩ tree "w/p.json" = .ok (saved, tree')
      ∧ saved.storePaths "w/p.json" = { p with sourceRoot := "s", savedAt := some ⟨0, 0⟩ }
      ∧ tree'.read "w/p.json" = .ok (saved.storePaths "w/p.json").write
      ∧ ∃ loaded, load tree' "w/p.json" = .ok loaded ∧ saved.SamePlaces loaded
        ∧ ∀ later, ∃ again tree'', loaded.save later tree' "w/p.json" = .ok (again, tree'')
          ∧ tree''.read "w/p.json"
            = .ok { saved.storePaths "w/p.json" with savedAt := some later }.write := by
  intro tree p
  have hbase : Path.parent? "w/p.json" = some "w" := by decide
  have hplain : tree.locate "w/p.json" = .ok ["w", "p.json"] :=
    FileTree.locate_of_plain tree (by decide) (by decide) (by decide)
  have hwrite : tree.write "w/p.json"
      (.text ({ p with savedAt := some ⟨0, 0⟩ }.storePaths "w/p.json").write) = .ok _ :=
    FileTree.write_of_none hplain (by decide) (by decide)
  have hsave : p.save ⟨0, 0⟩ tree "w/p.json" = .ok ({ p with savedAt := some ⟨0, 0⟩ }, _) :=
    Outcome.bind_eq_ok_iff.2 ⟨_, Outcome.mapError_eq_ok_iff.2 hwrite, rfl⟩
  have hstored : ({ p with savedAt := some ⟨0, 0⟩ } : Project).storePaths "w/p.json"
      = { p with sourceRoot := "s", savedAt := some ⟨0, 0⟩ } := by
    have hsource : storePath "w" "w//./s/" = "s" := by decide
    have houtput : storePath "w" "/o" = "/o" := by decide
    simp only [storePaths, hbase, p, hsource, houtput]
    rfl
  have hshown : Instant.IsShown ⟨0, 0⟩ := ⟨by decide, .inl (by decide)⟩
  have hjson : parse ({ p with sourceRoot := "s", savedAt := some ⟨0, 0⟩ } : Project).write
      = .ok { p with sourceRoot := "s", savedAt := some ⟨0, 0⟩ } :=
    parse_write (show 2 < 0x100000000 by decide) fun t ht =>
      Option.mem_some_iff.1 ht ▸ Instant.read?_write hshown
  exact ⟨_, _, hsave, hstored,
    save_load_save hbase (by decide) (by decide) hsave (hstored ▸ hjson)⟩

end Project

/-! ## New projects -/

namespace Command

theorem isAbsolute_absolute (tree : FileTree) (path : String) :
    Path.isAbsolute (absolute tree path) = true := by
  unfold absolute
  cases hpath : Path.isAbsolute path with
  | true => rw [Path.join_of_isAbsolute hpath, hpath]
  | false =>
      rw [Path.isAbsolute_join hpath, FileTree.workingPath]
      split
      · decide
      · next hworking =>
        obtain ⟨part, parts, hparts⟩ := List.exists_cons_of_ne_nil hworking
        rw [Path.isAbsolute, hparts, FileTree.toList_key]
        rfl

theorem NewProject.leadsFrom_toProject (n : NewProject) (tree : FileTree) (base : String) :
    Project.LeadsFrom base (n.toProject tree).sourceRoot
      ∧ Project.LeadsFrom base (n.toProject tree).outputDir :=
  ⟨.inl (isAbsolute_absolute ..), .inl (isAbsolute_absolute ..)⟩

end Command

end Configurator
