import Configurator.Command.Generating
import Configurator.Proofs.Artifact.Rendering
import Configurator.Proofs.Artifact.Writing
import Configurator.Proofs.Catalog.Closing
import Configurator.Proofs.Command.Running
import Configurator.Proofs.Command.Session

/-!
# Generating again

Generating writes the files of a project and saves it. The next session starts from the source tree
again, takes over what the copies of the headers hold, and restores what was saved; what it generates
is the same (`Command.exists_generate_again`), provided that each value is written in the same way once
it has been restored. Saving may spell the paths of the project in another way, as long as they lead
where they led.
-/

namespace Configurator

/-! ## States that are restored -/

namespace Project

open Catalog

variable {c merged : Catalog}

/-- Whether what is written for the headers of enabled modules is written again once it has been
restored in another catalogue. -/
def Returns (c merged : Catalog) : Prop :=
  ∀ path name p q, c.owners path ≠ [] → merged.parameter path name = .ok p →
    c.parameter path name = .ok q → q.type ≠ .autoenabled →
    (p.restored (p.valueList.bind merged.lists.get?) q.rendered).rendered = q.rendered

theorem alike_restoreValues (hbuilt : c.IsBuilt) (hidle : merged.Idle)
    (hdecl : merged.declared = c.declared) (hreturns : Returns c merged) (p : Project) :
    c.Alike ((p.capture c).restoreValues merged).2 := by
  have honly := onlyValues_restoreValues hidle (p.capture c)
  refine ⟨honly.declared.trans hdecl, fun path name q r howner hq hr htype => ?_⟩
  have hrecorded := mem_recorded_capture hbuilt p howner hq htype
  obtain ⟨start, hstart, -⟩ := exists_parameter honly.declared hr
  rw [parameter_restoreValues hidle hrecorded hstart, Except.ok.injEq] at hr
  rw [← hr]
  exact hreturns path name start q howner hstart hq htype

/-- A closed state is restored with the same modules enabled and headers that are alike. -/
theorem alike_applyTo_capture (hbuilt : c.IsBuilt) (hclosed : c.Closed) (hidle : merged.Idle)
    (hdecl : merged.declared = c.declared) (hreturns : Returns c merged) (p : Project) :
    c.Alike ((p.capture c).applyTo merged).2
      ∧ ((p.capture c).applyTo merged).2.modules = c.modules := by
  have halike := alike_restoreValues hbuilt hidle hdecl hreturns p
  have hgraph := sameGraph_applyTo hidle (p.capture c)
  refine ⟨⟨hgraph.declared.trans halike.declared, fun path name q r howner hq hr htype => ?_⟩, ?_⟩
  · rw [parameter_applyTo hidle] at hr
    exact halike.parameters path name q r howner hq hr htype
  refine modules_eq_of_isEnabled (hgraph.declared.trans halike.declared) fun name => ?_
  rw [Bool.eq_iff_iff, isEnabled_applyTo hidle]
  constructor
  · refine needed_induction (P := fun n => c.isEnabled n = true) (fun n hn _ => ?_) ?_
    · refine (mem_enabledModules_capture hbuilt p).1 ((List.mem_append.1 hn).elim id fun hn => ?_)
      exact (List.mem_filter.1 hn).1
    · intro user huser dep hdep hmod
      obtain ⟨m, hm, hon⟩ := isEnabled_iff.1 huser
      have hmem : m ∈ c.enabledModules :=
        List.mem_filter.2 ⟨NameMap.mem_values_iff.2 ⟨user, hm⟩, hon⟩
      rw [← hbuilt.name_eq hm, halike.effectiveDeps hbuilt hmem, hbuilt.name_eq hm] at hdep
      rw [isModule_congr halike.declared] at hmod
      exact hclosed user huser dep hdep hmod
  · intro hon
    refine .listed (List.mem_append_left _ ((mem_enabledModules_capture hbuilt p).2 hon)) ?_
    rw [isModule_congr halike.declared]
    exact isModule_of_isEnabled hon

end Project

/-! ## Saving and opening again -/

namespace Session

open FileTree (Content)

variable {s : Session} {now : Instant} {tree tree' : FileTree} {place : List String}

/-- Saving writes a text to the place of the descriptor. -/
theorem exists_place_of_save (h : s.save now tree = .ok tree') :
    ∃ place text, tree.locate s.descriptor = .ok place
      ∧ (tree.entry? place = none ∨ ∃ old, tree.entry? place = some (.file old))
      ∧ tree' = tree.put place (.file (.text text)) := by
  obtain ⟨saved, hsave⟩ := save_eq_ok_iff.1 h
  obtain ⟨t, hwrite, hsave⟩ := Outcome.bind_eq_ok_iff.1 hsave
  cases hsave
  obtain ⟨place, hlocate, hplace, htree⟩ := FileTree.write_eq_ok (Outcome.mapError_eq_ok_iff.1 hwrite)
  exact ⟨place, _, hlocate, hplace, htree⟩

/-- Saving takes nothing away. -/
theorem grows_of_save (h : s.save now tree = .ok tree') : tree.Grows tree' := by
  obtain ⟨saved, hsave⟩ := save_eq_ok_iff.1 h
  exact Project.grows_of_save hsave

/-- Where the descriptor is there, a session is saved. -/
theorem exists_save_of_file {old : Content} (s : Session) (now : Instant)
    (hlocate : tree.locate s.descriptor = .ok place) (hplace : tree.entry? place = some (.file old)) :
    ∃ text, s.save now tree = .ok (tree.put place (.file (.text text))) := by
  refine ⟨_, save_eq_ok_iff.2 ⟨_, Outcome.bind_eq_ok_iff.2 ⟨_, Outcome.mapError_eq_ok_iff.2
    (FileTree.write_of_file hlocate hplace), rfl⟩⟩⟩

/-- Where one session was saved, another one with that descriptor is saved once more: the descriptor is
replaced, and no other place is written. -/
theorem exists_save_again {s' : Session} {t tree'' : FileTree} (hsave : s.save now t = .ok tree')
    (hdescriptor : s'.descriptor = s.descriptor) (hgrows : tree'.Grows tree'') (now' : Instant) :
    ∃ place text text', t.locate s.descriptor = .ok place
      ∧ tree' = t.put place (.file (.text text))
      ∧ s'.save now' tree'' = .ok (tree''.put place (.file (.text text')))
      ∧ tree''.Grows (tree''.put place (.file (.text text'))) := by
  obtain ⟨place, text, hlocate, hplace, htree⟩ := exists_place_of_save hsave
  have hne : place ≠ [] := by
    refine FileTree.ne_nil_of_entry? (t := t) ?_
    rcases hplace with hplace | ⟨old, hplace⟩ <;> simp [hplace]
  have hfile : tree'.entry? place = some (.file (.text text)) := by
    rw [htree]
    exact FileTree.entry?_put_self hne _
  obtain ⟨content, hcontent⟩ := hgrows.file place _ hfile
  have hlocate' : tree''.locate s'.descriptor = .ok place := by
    rw [hdescriptor]
    exact hgrows.locate ((grows_of_save hsave).locate hlocate)
  obtain ⟨text', hsave'⟩ := exists_save_of_file s' now' hlocate' hcontent
  exact ⟨place, text, text', hlocate, htree, hsave',
    FileTree.grows_put (.inr ⟨content, _, hcontent, rfl⟩)⟩

/-- What a session has saved of its state is restored in the declarations that it was opened with, under
the source root as it is spelled then: the same state, but for parameters that follow a module. -/
theorem alike_of_merged_again {settings : Settings} {descriptor root dir : String}
    {missing : List String} {fresh merged : Catalog} {n : Nat}
    (hopen : load settings tree descriptor = .ok (s, missing))
    (hscan : Catalog.load settings s.project.cpu.fileTags tree s.project.sourceRoot
      = .ok (fresh, s.files))
    (hmerge : Project.mergeGenerated tree' dir (fresh.atRoot root) = (.ok n, merged))
    (hreturns : Project.Returns s.catalog merged) :
    s.catalog.declared = fresh.declared ∧ (s.catalog.atRoot root).IsBuilt
      ∧ (s.catalog.atRoot root).Alike ((s.project.capture s.catalog).applyTo merged).2
      ∧ ((s.project.capture s.catalog).applyTo merged).2.modules = s.catalog.modules := by
  obtain ⟨fresh', mergedThen, m, hscan', hmergeThen, hcatalog, hidle, hbuilt, hdecl⟩ :=
    exists_merged_of_load hopen
  cases hscan.symm.trans hscan'
  have hfresh : s.catalog.declared = fresh.declared :=
    hdecl.trans (Project.onlyValues_mergeGenerated hmergeThen).declared
  have hbuilt' : (s.catalog.atRoot root).IsBuilt := Catalog.isBuilt_atRoot (hbuilt.congr hdecl) _
  have hclosed : s.catalog.Closed := by
    rw [hcatalog]
    exact hidle.closed.applyTo hbuilt s.project
  have hdecl' : merged.declared = (s.catalog.atRoot root).declared :=
    (Project.onlyValues_mergeGenerated hmerge).declared.trans
      (congrArg (·.atRoot root) hfresh.symm)
  have hidle' : merged.Idle := by
    refine (Project.onlyValues_mergeGenerated hmerge).idle fun name => ?_
    obtain ⟨modules, headers, lists, rfl⟩ := Catalog.exists_build_of_load hscan
    exact Catalog.isEnabled_build ..
  exact ⟨hfresh, hbuilt', Project.alike_applyTo_capture hbuilt' hclosed hidle' hdecl' hreturns s.project⟩

end Session

/-! ## Generating -/

/-- Whether a session reads from one tree what it reads from another one with the paths of a project:
the declarations and source files of the source tree, the templates, and copies of headers that bring
values back. -/
structure Session.ReadsAgain (s : Session) (tree tree' : FileTree) (p : Project) : Prop where
  start : SourceLists.startOf p.sourceRoot = SourceLists.startOf s.project.sourceRoot
  sources : ∀ c files, Catalog.load s.settings s.project.cpu.fileTags tree s.project.sourceRoot
      = .ok (c, files) →
    ∃ files', Catalog.load s.settings s.project.cpu.fileTags tree' p.sourceRoot
        = .ok (c.atRoot p.sourceRoot, files')
      ∧ FileIndex.SameSources tree files tree' files'
  templates : TemplateSet.load tree' s.project.family s.project.name s.settings.templateDir
    = TemplateSet.load tree s.project.family s.project.name s.settings.templateDir
  copies : ∀ c files, Catalog.load s.settings s.project.cpu.fileTags tree s.project.sourceRoot
      = .ok (c, files) →
    ∃ n merged, Project.mergeGenerated tree' (s.settings.configDirIn p.directory)
        (c.atRoot p.sourceRoot) = (.ok n, merged)
      ∧ Project.Returns s.catalog merged

namespace Command

open Artifact (writeAll)
open Session (ReadsAgain)

variable {settings : Settings} {tree tree' t : FileTree} {descriptor : String} {s : Session}
  {missing : List String} {now : Instant} {progress : Progress} {artifacts : List Artifact}
  {written : List String}

/-- Once its artifacts are written, generating saves the session behind what is printed. -/
theorem exists_execute_generate (hartifacts : artifactsOf s tree = .ok artifacts)
    (hwrite : writeAll tree s.project.outputDir artifacts = (.ok written, tree')) (now : Instant) :
    ∃ p : Progress, p.tree = tree'
      ∧ execute (generate s now false) tree = (saveSession s now).runFrom p := by
  rw [execute_eq, generate, runFrom_bind, runFrom_get]
  dsimp only
  rw [hartifacts]
  dsimp only
  rw [if_neg (by simp), runFrom_bind, writeArtifacts, runFrom_bind, runFrom_get]
  dsimp only
  rw [hwrite]
  dsimp only
  rw [runFrom_bind, runFrom_modify]
  dsimp only
  rw [runFrom_attempt]
  dsimp only [Except.mapError]
  obtain ⟨p, hp, heq⟩ := (prints_say ("✓ Generated " ++ toString written.length ++ " files in "
    ++ s.project.outputDir)).runFrom_seq _ { tree := tree' }
  obtain ⟨p', hp', heq'⟩ := (prints_sayAll (written.map fun path =>
    "  " ++ (Path.stripPrefix? s.project.outputDir path).getD path)).runFrom_seq
      (saveSession s now) p
  exact ⟨p', hp'.trans hp, heq.trans heq'⟩

/-- Where the artifacts are written and the session is saved, generating succeeds. -/
theorem exists_generate_of_writeAll (hartifacts : artifactsOf s tree = .ok artifacts)
    (hwrite : writeAll tree s.project.outputDir artifacts = (.ok written, tree'))
    {tree'' : FileTree} (hsave : s.save now tree' = .ok tree'') :
    ∃ p : Progress, p.tree = tree'' ∧ execute (generate s now false) tree = (.ok (), p) := by
  obtain ⟨p, rfl, heq⟩ := exists_execute_generate hartifacts hwrite now
  rw [runFrom_saveSession, hsave] at heq
  exact ⟨_, rfl, heq⟩

/-- Generating that succeeds has written the artifacts and then saved the session. -/
theorem exists_writeAll_of_generate
    (hrun : execute (generate s now false) tree = (.ok (), progress)) :
    ∃ artifacts written t, artifactsOf s tree = .ok artifacts
      ∧ writeAll tree s.project.outputDir artifacts = (.ok written, t)
      ∧ s.save now t = .ok progress.tree := by
  cases hartifacts : artifactsOf s tree with
  | error failure =>
      rw [execute_eq, generate, runFrom_bind, runFrom_get] at hrun
      dsimp only at hrun
      rw [hartifacts] at hrun
      cases hrun
  | ok artifacts =>
      cases hwrite : writeAll tree s.project.outputDir artifacts with
      | mk result t =>
          cases result with
          | error e =>
              rw [execute_eq, generate, runFrom_bind, runFrom_get] at hrun
              dsimp only at hrun
              rw [hartifacts] at hrun
              dsimp only at hrun
              rw [if_neg (by simp), runFrom_bind, writeArtifacts, runFrom_bind, runFrom_get] at hrun
              dsimp only at hrun
              rw [hwrite] at hrun
              cases hrun
          | ok written =>
              obtain ⟨p, rfl, heq⟩ := exists_execute_generate hartifacts hwrite now
              rw [hrun, runFrom_saveSession] at heq
              split at heq
              · next hsave =>
                cases heq
                exact ⟨artifacts, written, p.tree, rfl, hwrite, hsave⟩
              · cases heq

/-- The same of the artifacts that the session has. -/
theorem exists_saved_of_generate
    (hrun : execute (generate s now false) tree = (.ok (), progress))
    (hartifacts : artifactsOf s tree = .ok artifacts) :
    ∃ written t, writeAll tree s.project.outputDir artifacts = (.ok written, t)
      ∧ s.save now t = .ok progress.tree := by
  obtain ⟨artifacts', written, t, hartifacts', hwrite, hsave⟩ := exists_writeAll_of_generate hrun
  obtain rfl : artifacts = artifacts' := Except.ok.inj (hartifacts.symm.trans hartifacts')
  exact ⟨written, t, hwrite, hsave⟩

/-- The session that is opened once a session has been saved generates what that one did. -/
theorem exists_artifactsOf_of_save (hopen : Session.load settings tree descriptor = .ok (s, missing))
    (hartifacts : artifactsOf s tree = .ok artifacts) (hgrows : tree.Grows tree')
    (hsave : s.save now t = .ok tree') (hnow : now.IsShown)
    (hreads : s.ReadsAgain tree tree' (s.project.reopened descriptor)) :
    ∃ s' missing', Session.load settings tree' descriptor = .ok (s', missing')
      ∧ s'.descriptor = descriptor
      ∧ s'.project.outputDir = (s.project.reopened descriptor).outputDir
      ∧ artifactsOf s' tree' = .ok artifacts := by
  obtain ⟨-, -, -, -, -, -, -, rfl, rfl⟩ := Session.load_eq_ok_iff.1 hopen
  obtain ⟨fresh, -, -, hscan, -⟩ := Session.exists_merged_of_load hopen
  obtain ⟨files', hscan', hsources⟩ := hreads.sources fresh s.files hscan
  obtain ⟨n', merged', hmerge', hreturns⟩ := hreads.copies fresh s.files hscan
  obtain ⟨saved, hsaved⟩ := Session.save_eq_ok_iff.1 hsave
  obtain ⟨s', missing', hload, hsettings', hproject', hfiles', hcatalog'⟩ :=
    Session.exists_load_of_save (p := s.project.capture s.catalog) hopen hgrows ⟨rfl, rfl⟩ hnow hsaved
      hscan' hmerge'
  obtain ⟨-, -, -, -, -, -, -, -, hdescriptor'⟩ := Session.load_eq_ok_iff.1 hload
  refine ⟨s', missing', hload, hdescriptor', by rw [hproject']; rfl, ?_⟩
  obtain ⟨hfresh, hbuilt, halike, hmodules⟩ :=
    Session.alike_of_merged_again hopen hscan hmerge' hreturns
  rw [← hcatalog'] at halike hmodules
  -- so the same is generated
  obtain ⟨templates, htemplates, hresult⟩ := Outcome.bind_eq_ok_iff.1 hartifacts
  cases hresult
  rw [← hreads.templates] at htemplates
  refine Outcome.bind_eq_ok_iff.2 ⟨templates, ?_, ?_⟩
  · rw [hproject', hsettings']
    exact htemplates
  · have hbuild : s.project.SameBuild s'.project := by
      rw [hproject']
      exact ⟨rfl, rfl, rfl, rfl⟩
    have hroot : s.catalog.sourceRoot = s.project.sourceRoot := by
      rw [← Catalog.sourceRoot_of_load hscan]
      exact congrArg (·.sourceRoot) hfresh
    have hstart : SourceLists.startOf (s.project.reopened s.descriptor).sourceRoot
        = SourceLists.startOf s.catalog.sourceRoot := by
      rw [hroot, hreads.start]
    rw [← Artifact.ofCatalog_atRoot hstart,
      ← Artifact.ofCatalog_congr halike hmodules hbuilt hsources hbuild, hfiles', hsettings']
    rfl

/-- The artifacts of a session are written again, to another spelling of the same places too, and then
each place is as it was after they were written first, or as it was before they were written again. -/
theorem exists_writeAll_again {dir' : String} (hartifacts : artifactsOf s tree = .ok artifacts)
    (hwrite : writeAll tree s.project.outputDir artifacts = (.ok written, t)) (hgrows : t.Grows tree')
    (hsame : ∀ a ∈ artifacts, a.SamePlace tree' s.project.outputDir dir') :
    (∀ a ∈ artifacts, ∃ place, t.locate (a.destination s.project.outputDir) = .ok place)
      ∧ ∃ again u, writeAll tree' dir' artifacts = (.ok again, u) ∧ tree'.Grows u
        ∧ ∀ place, u.entry? place = t.entry? place ∨ u.entry? place = tree'.entry? place := by
  obtain ⟨templates, htemplates, hresult⟩ := Outcome.bind_eq_ok_iff.1 hartifacts
  obtain ⟨as, a, hconcat, howned, ha, hbeside⟩ := Artifact.exists_ofCatalog
    (Outcome.mapError_eq_ok_iff.1 htemplates) tree s.settings.configDir s.catalog s.files
  obtain rfl : artifacts = as ++ [a] := by
    cases hresult
    exact hconcat
  obtain ⟨again, u, hagain, hgrown, hplain⟩ :=
    Artifact.writeAll_concat_again howned ha (hbeside _) hwrite hgrows
  obtain ⟨again', hagain'⟩ := Artifact.exists_writeAll_of_samePlace hsame (.refl _) hagain
  exact ⟨fun b hb => Artifact.exists_locate_of_writeAll_concat howned hwrite hb,
    again', u, hagain', hgrown, hplain⟩

/-- Generating a second time succeeds and leaves the generated files as they are, provided that the second
session reads from the files that the first one left what that one read. -/
theorem exists_generate_again (hopen : Session.load settings tree descriptor = .ok (s, missing))
    (hrun : execute (generate s now false) tree = (.ok (), progress))
    (hartifacts : artifactsOf s tree = .ok artifacts) (hnow : now.IsShown)
    (hreads : s.ReadsAgain tree progress.tree (s.project.reopened descriptor))
    (hsame : ∀ a ∈ artifacts, a.SamePlace progress.tree s.project.outputDir
      (s.project.reopened descriptor).outputDir)
    (hplaces : ∀ a ∈ artifacts, ∀ place place',
      progress.tree.locate (a.destination s.project.outputDir) = .ok place →
      progress.tree.locate descriptor = .ok place' → FileTree.key place ≠ FileTree.key place')
    (now' : Instant) :
    ∃ s' missing' progress', Session.load settings progress.tree descriptor = .ok (s', missing')
      ∧ execute (generate s' now' false) progress.tree = (.ok (), progress')
      ∧ artifactsOf s' progress.tree = .ok artifacts
      ∧ ∀ a ∈ artifacts, progress'.tree.find? (a.destination s.project.outputDir)
        = progress.tree.find? (a.destination s.project.outputDir) := by
  obtain ⟨written, t, hwrite, hsave⟩ := exists_saved_of_generate hrun hartifacts
  have hgrows := Artifact.grows_of_writeAll hwrite
  have hsaves := Session.grows_of_save hsave
  obtain ⟨s', missing', hload, hdescriptor', hdir', hartifacts'⟩ :=
    exists_artifactsOf_of_save hopen hartifacts (hgrows.trans hsaves) hsave hnow hreads
  obtain ⟨hlocates, again, u, hagain, hgrown, hplain⟩ :=
    exists_writeAll_again hartifacts hwrite hsaves hsame
  obtain ⟨-, -, -, -, -, -, -, -, hdescriptor⟩ := Session.load_eq_ok_iff.1 hopen
  obtain ⟨place, text, text', hlocate, htree, hsave', hgrown'⟩ :=
    Session.exists_save_again hsave (hdescriptor'.trans hdescriptor.symm) hgrown now'
  obtain ⟨progress', htree', hrun'⟩ :=
    exists_generate_of_writeAll hartifacts' (by rw [hdir']; exact hagain) hsave'
  refine ⟨s', missing', progress', hload, hrun', hartifacts', fun b hb => ?_⟩
  -- where an artifact stands, neither saving wrote
  obtain ⟨place', hlocate'⟩ := hlocates b hb
  rw [hdescriptor] at hlocate
  have hkey : FileTree.key place ≠ FileTree.key place' :=
    (hplaces b hb place' place (hsaves.locate hlocate') (hsaves.locate hlocate)).symm
  have hbefore : progress.tree.entry? place' = t.entry? place' := by
    rw [htree, FileTree.entry?_put, if_neg fun h => hkey h.2]
  have hafter : progress'.tree.entry? place' = u.entry? place' := by
    rw [htree', FileTree.entry?_put, if_neg fun h => hkey h.2]
  rw [← htree'] at hgrown'
  refine (hgrown.trans hgrown').find?_eq (hsaves.locate hlocate') ?_
  rcases hplain place' with hplain | hplain
  · exact (hafter.trans hplain).trans hbefore.symm
  · exact hafter.trans hplain

end Command

end Configurator
