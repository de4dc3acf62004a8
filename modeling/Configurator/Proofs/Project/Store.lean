import Configurator.Project.Store
import Configurator.Proofs.FileTree
import Configurator.Proofs.Instant
import Configurator.Proofs.Project.Descriptor

/-!
# Saved projects are loaded again

Loading a descriptor that has just been saved gives the project back, with its paths as they are seen
after they were stored (`Project.load_of_save`).
-/

namespace Configurator.Project

open Json (Decoder Fields)

variable {p q : Project} {tree tree' : FileTree} {descriptor : String} {now : Instant}

/-! ## Versions -/

theorem lt_of_word32 {j : Json} {n : Nat} (h : Decoder.word32 j = .ok n) : n < 0x100000000 := by
  unfold Decoder.word32 at h
  split at h
  · split at h
    · next hrange =>
      cases h
      omega
    · cases h
  · cases h

theorem lt_of_orElse_word32 {fs : Fields} {name : String} {n : Nat}
    (h : fs.orElse name 1 Decoder.word32 = .ok n) : n < 0x100000000 := by
  unfold Fields.orElse at h
  split at h
  · exact lt_of_word32 h
  · cases h
    decide

/-- A descriptor has a version of 32 bits. -/
theorem version_lt_of_decoder {j : Json} (h : decoder j = .ok p) : p.version < 0x100000000 := by
  obtain ⟨fs, -, h⟩ := Outcome.bind_eq_ok_iff.1 h
  obtain ⟨version, hversion, h⟩ := Outcome.bind_eq_ok_iff.1 h
  have hlt := lt_of_orElse_word32 hversion
  iterate 11 obtain ⟨_, -, h⟩ := Outcome.bind_eq_ok_iff.1 h
  cases h
  exact hlt

theorem version_resolvePaths (p : Project) (descriptor : String) :
    (p.resolvePaths descriptor).version = p.version := by
  unfold resolvePaths
  split <;> rfl

theorem version_lt_of_load (h : load tree descriptor = .ok p) : p.version < 0x100000000 := by
  obtain ⟨text, -, h⟩ := Outcome.bind_eq_ok_iff.1 h
  obtain ⟨q, hq, h⟩ := Outcome.bind_eq_ok_iff.1 h
  cases h
  rw [version_resolvePaths]
  rw [parse, Outcome.mapError_eq_ok_iff, Json.decode] at hq
  split at hq
  · exact version_lt_of_decoder hq
  · cases hq

/-! ## Opening -/

/-- A project is opened if its source tree and its compiler are there. -/
theorem openFile_eq_ok_iff :
    openFile tree descriptor = .ok p
      ↔ load tree descriptor = .ok p ∧ tree.isDirectory p.sourceRoot = true
        ∧ (p.toolchain.path = "" ∨ tree.exists? p.toolchain.path = true) := by
  have hvalidate : ∀ q : Project, q.validate tree = .ok ()
      ↔ tree.isDirectory q.sourceRoot = true
        ∧ (q.toolchain.path = "" ∨ tree.exists? q.toolchain.path = true) := by
    intro q
    unfold validate
    cases tree.isDirectory q.sourceRoot <;> by_cases hpath : q.toolchain.path = ""
      <;> cases tree.exists? q.toolchain.path
      <;> simp [hpath, bind, Except.bind, pure, Except.pure, throw, throwThe, MonadExceptOf.throw]
  unfold openFile
  simp only [Outcome.bind_eq_ok_iff]
  constructor
  · rintro ⟨q, hload, ⟨⟩, hq, heq⟩
    cases heq
    exact ⟨hload, (hvalidate p).1 hq⟩
  · rintro ⟨hload, hchecks⟩
    exact ⟨p, hload, (), (hvalidate p).2 hchecks, rfl⟩

/-! ## Saving and loading -/

/-- A path of a project as it is seen once it has been stored in a descriptor. -/
def reopenedPath (descriptor path : String) : String :=
  match Path.parent? descriptor with
  | none => path
  | some base => resolvePath base (if base = "" then path else storePath base path)

/-- A project as it is found once it has been saved. -/
def reopened (p : Project) (descriptor : String) : Project :=
  { p with
    sourceRoot := reopenedPath descriptor p.sourceRoot
    outputDir := reopenedPath descriptor p.outputDir }

theorem resolvePaths_storePaths (p : Project) (descriptor : String) :
    (p.storePaths descriptor).resolvePaths descriptor = p.reopened descriptor := by
  unfold resolvePaths storePaths reopened reopenedPath
  cases Path.parent? descriptor with
  | none => rfl
  | some base => by_cases hbase : base = "" <;> simp [hbase]

theorem grows_of_save (h : p.save now tree descriptor = .ok (q, tree')) : tree.Grows tree' := by
  obtain ⟨t, hwrite, h⟩ := Outcome.bind_eq_ok_iff.1 h
  cases h
  exact FileTree.grows_of_write (Outcome.mapError_eq_ok_iff.1 hwrite)

theorem load_of_save (hversion : p.version < 0x100000000) (hnow : now.IsShown)
    (h : p.save now tree descriptor = .ok (q, tree')) :
    load tree' descriptor = .ok ({ p with savedAt := some now }.reopened descriptor) := by
  obtain ⟨t, hwrite, h⟩ := Outcome.bind_eq_ok_iff.1 h
  cases h
  have hread := FileTree.read_of_write (Outcome.mapError_eq_ok_iff.1 hwrite)
  rw [← resolvePaths_storePaths]
  obtain ⟨stored, hstored, hversion', hsaved⟩ : ∃ stored,
      { p with savedAt := some now }.storePaths descriptor = stored
        ∧ stored.version = p.version ∧ stored.savedAt = some now := by
    refine ⟨_, rfl, ?_⟩
    unfold storePaths
    split
    · exact ⟨rfl, rfl⟩
    · split <;> exact ⟨rfl, rfl⟩
  have hparse : parse stored.write = .ok stored := by
    refine parse_write (hversion' ▸ hversion) fun t ht => ?_
    rw [hsaved, Option.mem_some_iff] at ht
    exact ht ▸ Instant.read?_write hnow
  rw [hstored] at hread ⊢
  exact Outcome.bind_eq_ok_iff.2 ⟨_, Outcome.mapError_eq_ok_iff.2 hread,
    Outcome.bind_eq_ok_iff.2 ⟨stored, hparse, rfl⟩⟩

end Configurator.Project
