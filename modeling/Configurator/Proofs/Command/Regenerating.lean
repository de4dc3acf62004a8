import Configurator.Proofs.Artifact.Copies
import Configurator.Proofs.Command.Assigning
import Configurator.Proofs.Command.Generating
import Configurator.Proofs.Header.Lasting
import Configurator.Proofs.Path

/-!
# Generating changes nothing that was generated

A session that is opened after files were generated starts from the source tree again, takes over what
the copies of headers hold, and restores what was saved. What it generates is what was generated before
(`Command.exists_generate_same`), as long as generating writes to no file that a session reads but for
the copies and the descriptor, as the paths of the project lead to the same places once they are spelled
as they are saved, and as the values that it writes last: a boolean that a header spells as a word does
not, because restoring brings it into another form (`Command.not_forall_generate_same`).

All this is said of the files that the first run leaves. A path leads to a place only by way of directories
that are there, and as long as the directories for the output are still to be made, nothing can be said of
where it goes. The output may lie below the source root if nothing is declared there and nothing has the
name of a source (`Catalog.AddsNothing`): the copy of a header that is a C file is a source itself there,
and compiled from the second time on.
-/

namespace Configurator

open Comment (IsTrimmed)

namespace Session

open Project (copyOf? CopyReads)

/-! ## What a session reads -/

/-- Whether generating writes a copy of a header. -/
def Generates (s : Session) (path : String) : Prop :=
  s.catalog.owners path ≠ [] ∧ ∃ h, s.catalog.headers.get? path = some h

/-- Where a session looks for the copies of headers. -/
def copiesDir (s : Session) : String :=
  s.settings.configDirIn s.project.directory

/-- Whether a session finds in one tree, with the paths of a project, what it found in another tree: the
same source tree under the same name, which paths of sources start with, the same templates, and the same
copies of headers, those aside that it generates. -/
structure ReadsAlike (s : Session) (tree tree' : FileTree) (p : Project) : Prop where
  start : SourceLists.startOf p.sourceRoot = SourceLists.startOf s.project.sourceRoot
  sources : Catalog.ReadsAlike s.settings s.project.cpu.fileTags tree s.project.sourceRoot tree'
    p.sourceRoot
  templates : TemplateSet.ReadsAlike s.project.family s.project.name s.settings.templateDir tree tree'
  copies : ∀ path h, s.catalog.headers.get? path = some h →
    copyOf? tree' (s.settings.configDirIn p.directory) path = copyOf? tree s.copiesDir path
      ∨ ∃ other, s.Generates other ∧ Path.fileName? other = Path.fileName? path

/-- Whether all that a session generates for headers lasts, and has a name of its own to be found
under. -/
structure Lasts (s : Session) : Prop where
  named : ∀ path, s.Generates path → ∃ name, Path.fileName? path = some name
  values : ∀ path h, s.Generates path →
    s.catalog.syncAutoenabled.2.headers.get? path = some h → h.Lasting

variable {s : Session} {tree tree' : FileTree} {path : String} {artifacts : List Artifact}

/-! ## Copies that were generated -/

/-- The header that is written for a generated one. -/
theorem Generates.exists_header (h : s.Generates path) :
    ∃ k, s.catalog.syncAutoenabled.2.headers.get? path = some k := by
  obtain ⟨-, k, hk⟩ := h
  obtain ⟨k', hk', -⟩ :=
    Catalog.exists_header (Catalog.declared_syncAutoenabled s.catalog).symm hk
  exact ⟨k', hk'⟩

/-- What is generated for the state of a session. -/
theorem Generates.mem_referencedHeaders (h : s.Generates path) :
    path ∈ Artifact.referencedHeaders s.catalog.syncAutoenabled.2 := by
  obtain ⟨user, huser⟩ := List.exists_mem_of_ne_nil _ h.1
  obtain ⟨m, hm, -⟩ := List.mem_map.1 huser
  obtain ⟨hm, hpath⟩ := List.mem_filter.1 hm
  refine NameSet.mem_ofList.2 (List.mem_filterMap.2 ⟨m, ?_, by simpa using hpath⟩)
  rwa [Catalog.enabledModules_syncAutoenabled]

/-- What is generated has a copy of each header that an enabled module is bound to. -/
theorem Generates.mem_artifacts (h : s.Generates path)
    (hartifacts : Command.artifactsOf s tree = .ok artifacts) {k : Header}
    (hk : s.catalog.syncAutoenabled.2.headers.get? path = some k) :
    ⟨Artifact.headerPath s.project s.settings.configDir path, k.render, false⟩ ∈ artifacts := by
  obtain ⟨templates, -, hresult⟩ := Outcome.bind_eq_ok_iff.1 hartifacts
  cases hresult
  exact List.mem_append_left _ (List.mem_filterMap.2
    ⟨path, NameSet.mem_toList.2 h.mem_referencedHeaders, by rw [hk]; rfl⟩)

/-- The generated headers of a session have file names, whatever it was opened with. -/
theorem Generates.exists_fileName? {settings : Settings} {descriptor : String}
    {missing : List String} (h : s.Generates path)
    (hopen : load settings tree descriptor = .ok (s, missing)) (hrooted : tree.IsRooted) :
    ∃ name, Path.fileName? path = some name := by
  obtain ⟨fresh, merged, n, hscan, hmerge, -, -, -, hdecl⟩ := exists_merged_of_load hopen
  obtain ⟨k, hk⟩ := h.exists_header
  exact Artifact.Generates.exists_fileName? hscan hrooted
    (hdecl.trans (Project.onlyValues_mergeGenerated hmerge).declared) ⟨h.mem_referencedHeaders, hk⟩

/-- What is written for a generated header can be read, and what is restored then is written in the same
way. -/
theorem Generates.exists_copy {fresh : Catalog} (h : s.Generates path)
    (hscan : ∀ path k, fresh.headers.get? path = some k → ∃ text, Header.parse path text = .ok k)
    (hdecl : s.catalog.declared = fresh.declared) (hlasts : s.Lasts) :
    ∃ k k₀ copy, s.catalog.syncAutoenabled.2.headers.get? path = some k
      ∧ fresh.headers.get? path = some k₀
      ∧ Header.parse path k.render = .ok copy
      ∧ ∀ p q, p ∈ (k₀.merge copy).params → q ∈ k.params → p.name = q.name →
        q.type ≠ .autoenabled → ∀ choices, (p.restored choices q.rendered).rendered = q.rendered := by
  obtain ⟨k, hk⟩ := h.exists_header
  have hsync : s.catalog.syncAutoenabled.2.declared = fresh.declared :=
    (Catalog.declared_syncAutoenabled s.catalog).trans hdecl
  obtain ⟨k₀, hk₀, hkdecl⟩ := Catalog.exists_header hsync hk
  obtain ⟨text, hparse⟩ := hscan path k₀ hk₀
  obtain ⟨-, h₀, hh₀⟩ := id h
  have hfollows : ∀ q ∈ k.params, q.type = .autoenabled → IsTrimmed q.rendered.toList := by
    intro q hq htype
    rw [Parameter.rendered_of_ne_integer (by rw [htype]; decide)]
    rcases (Catalog.params_syncAutoenabled hh₀ hk).2 h.1 q hq htype with hvalue | hvalue <;>
      rw [hvalue]
    · exact Text.isTrimmed_trim ['0']
    · exact Text.isTrimmed_trim ['1']
  obtain ⟨copy, hcopy, hreturns⟩ :=
    (hlasts.values path k h hk).exists_copy hparse hkdecl.symm hfollows
  exact ⟨k, k₀, copy, hk, hk₀, hcopy, hreturns⟩

/-- All copies of headers can be read again, and the generated ones bring values back that are written in
the same way. -/
theorem exists_merge_again {fresh merged : Catalog} {n : Nat} {p : Project}
    (hscan : ∀ path k, fresh.headers.get? path = some k → ∃ text, Header.parse path text = .ok k)
    (hdecl : s.catalog.declared = fresh.declared)
    (hmerge : Project.mergeGenerated tree s.copiesDir fresh = (.ok n, merged))
    (hreads : s.ReadsAlike tree tree' p) (hlasts : s.Lasts)
    (hcopies : ∀ path k, s.Generates path → s.catalog.syncAutoenabled.2.headers.get? path = some k →
      copyOf? tree' (s.settings.configDirIn p.directory) path = some (.ok k.render)) :
    ∃ n' merged', Project.mergeGenerated tree' (s.settings.configDirIn p.directory)
        (fresh.atRoot p.sourceRoot) = (.ok n', merged')
      ∧ Project.Returns s.catalog merged' := by
  have hall : ∀ path ∈ fresh.headers.keys,
      CopyReads tree' (s.settings.configDirIn p.directory) path := by
    intro path hpath
    obtain ⟨k₀, hk₀⟩ := Option.isSome_iff_exists.1 (NameMap.mem_keys_iff.1 hpath)
    obtain ⟨k, hk, -⟩ := Catalog.exists_header hdecl.symm hk₀
    intro found hfound
    rcases hreads.copies path k hk with hsame | ⟨other, hother, hname⟩
    · exact Project.copyReads_of_mergeHeaders hmerge path hpath found (hsame ▸ hfound)
    · obtain ⟨k', -, copy, hk', -, hparse, -⟩ := hother.exists_copy hscan hdecl hlasts
      obtain ⟨copy', hparse'⟩ := Header.exists_parse_of_parse hparse path
      rw [copyOf?, ← hname, ← copyOf?, hcopies other k' hother hk', Option.some.injEq] at hfound
      exact ⟨_, copy', hfound.symm, hparse'⟩
  have hthere : ∀ path ∈ fresh.headers.keys,
      ∃ k, (fresh.atRoot p.sourceRoot).headers.get? path = some k :=
    fun path hpath => Option.isSome_iff_exists.1 (NameMap.mem_keys_iff.1 hpath)
  obtain ⟨n', merged', hmerged⟩ := Project.exists_mergeHeaders hall hthere
  refine ⟨n', merged', hmerged, ?_⟩
  intro path name p₁ q howner hp hq htype
  obtain ⟨h₀, hh₀, hget⟩ := Catalog.parameter_eq_ok_iff.1 hq
  obtain ⟨hmem, hqname⟩ := Header.get?_eq_some_iff.1 hget
  have hgenerates : s.Generates path := ⟨howner, h₀, hh₀⟩
  obtain ⟨k, k₀, copy, hk, hk₀, hparse, hreturns⟩ := hgenerates.exists_copy hscan hdecl hlasts
  obtain ⟨h₁, hh₁, hget'⟩ := Catalog.parameter_eq_ok_iff.1 hp
  obtain ⟨hmem', hpname⟩ := Header.get?_eq_some_iff.1 hget'
  have hmerged₀ := (Project.get?_mergeHeaders hmerged fresh.headers.nodup_keys path).2
    (NameMap.mem_keys_iff.2 (by rw [hk₀]; rfl)) _ copy (hcopies path k hgenerates hk) hparse
  have hfresh : (fresh.atRoot p.sourceRoot).headers.get? path = some k₀ := hk₀
  rw [hh₁, hfresh, Option.map_some, Option.some.injEq] at hmerged₀
  subst hmerged₀
  exact hreturns p₁ q hmem' ((Catalog.params_syncAutoenabled hh₀ hk).1 q hmem htype)
    (hpname.trans hqname.symm) htype _

/-- A session reads again what it read, once its artifacts are found where a later session looks for
them. -/
theorem readsAgain_of_find? {settings : Settings} {descriptor : String} {missing : List String}
    {p : Project} (hopen : load settings tree descriptor = .ok (s, missing))
    (hname : p.name = s.project.name)
    (hartifacts : Command.artifactsOf s tree = .ok artifacts) (hreads : s.ReadsAlike tree tree' p)
    (hlasts : s.Lasts)
    (hfound : ∀ a ∈ artifacts, a.userOwned = false →
      tree'.find? (a.destination p.outputDir) = some (.file (.text a.contents))) :
    s.ReadsAgain tree tree' p := by
  obtain ⟨fresh, merged, n, hscan, hmerge, -, -, -, hdecl⟩ := exists_merged_of_load hopen
  have honly := Project.onlyValues_mergeGenerated hmerge
  obtain ⟨-, -, -, -, -, -, -, hsettings, -⟩ := load_eq_ok_iff.1 hopen
  subst hsettings
  have hcopies : ∀ path k, s.Generates path →
      s.catalog.syncAutoenabled.2.headers.get? path = some k →
      copyOf? tree' (s.settings.configDirIn p.directory) path = some (.ok k.render) := by
    intro path k hpath hk
    obtain ⟨name, hfile⟩ := hlasts.named path hpath
    have hcopy := hfound _ (hpath.mem_artifacts hartifacts hk) rfl
    have hplace : Artifact.headerPath s.project s.settings.configDir path
        = Artifact.headerPath p s.settings.configDir path := by
      rw [Artifact.headerPath, Artifact.headerPath, hname]
    rw [Artifact.destination, hplace] at hcopy
    exact Project.copyOf?_of_find? hfile hcopy
  obtain ⟨templates, htemplates, -⟩ := Outcome.bind_eq_ok_iff.1 hartifacts
  rw [Outcome.mapError_eq_ok_iff] at htemplates
  refine ⟨hreads.start, fun c files hload => ?_, ?_, fun c files hload => ?_⟩
  · exact Catalog.load_of_readsAlike hload hreads.sources
  · rw [htemplates]
    exact TemplateSet.load_of_readsAlike htemplates hreads.templates
  · rw [hscan, Except.ok.injEq, Prod.mk.injEq] at hload
    obtain ⟨rfl, rfl⟩ := hload
    exact exists_merge_again (fun path k => Catalog.exists_parse_of_load hscan)
      (hdecl.trans honly.declared) hmerge hreads hlasts hcopies

end Session

/-! ## Generating again -/

namespace Command

variable {settings : Settings} {tree : FileTree} {descriptor : String} {s : Session}
  {missing : List String} {now : Instant} {progress : Progress} {artifacts : List Artifact}

/-- Generating takes nothing away. -/
theorem grows_of_generate (hrun : execute (generate s now false) tree = (.ok (), progress)) :
    tree.Grows progress.tree := by
  obtain ⟨artifacts, written, t, -, hwrite, hsave⟩ := exists_writeAll_of_generate hrun
  exact (Artifact.grows_of_writeAll hwrite).trans (Session.grows_of_save hsave)

/-- What is generated stands where it was put when generating is over. -/
theorem find?_of_generate (hopen : Session.load settings tree descriptor = .ok (s, missing))
    (hrun : execute (generate s now false) tree = (.ok (), progress))
    (hartifacts : artifactsOf s tree = .ok artifacts)
    (hapart : (descriptor :: artifacts.map (·.destination s.project.outputDir)).Pairwise
      progress.tree.Apart) {a : Artifact} (ha : a ∈ artifacts) (howned : a.userOwned = false) :
    progress.tree.find? (a.destination s.project.outputDir) = some (.file (.text a.contents)) := by
  obtain ⟨hdescriptor, hdistinct⟩ := List.pairwise_cons.1 hapart
  obtain ⟨written, t, hwrite, hsave⟩ := exists_saved_of_generate hrun hartifacts
  have hsaves := Session.grows_of_save hsave
  have hwritten := Artifact.find?_writeAll hwrite
    ((List.pairwise_map.1 hdistinct).imp fun hplaces => hplaces.of_grows hsaves) ha howned
  obtain ⟨place, hlocate, hplace⟩ := FileTree.find?_eq_some_iff.1 hwritten
  -- the descriptor is put elsewhere
  obtain ⟨-, -, -, -, -, -, -, -, hname⟩ := Session.load_eq_ok_iff.1 hopen
  obtain ⟨place', text, hlocate', -, htree⟩ := Session.exists_place_of_save hsave
  rw [hname] at hlocate'
  have hkey := hdescriptor _ (List.mem_map_of_mem ha) place' place (hsaves.locate hlocate')
    (hsaves.locate hlocate)
  refine FileTree.find?_eq_some_iff.2 ⟨place, hsaves.locate hlocate, ?_⟩
  rw [htree, FileTree.entry?_put, if_neg fun h => hkey h.2]
  exact hplace

end Command

/-! ## A project with one header -/

theorem isRooted_soleTree (header descriptor : String) : (soleTree header descriptor).IsRooted := by
  intro place hplace
  by_cases hroot : place = []
  · rw [hroot]
    rfl
  · rw [ entry?_soleTree _ _ hroot] at hplace
    -- all else that stands there is a file
    have hkey : "/s" = FileTree.key place := by
      split_ifs at hplace with _ _ hsources
      · cases hplace
      · cases hplace
      · exact hsources
      · cases hplace
    rw [FileTree.dropLast_eq_nil_of_count (by rw [← hkey]; decide)]
    rfl

/-- That tree with the directories that generating makes. -/
def madeTree (header descriptor : String) : FileTree :=
  (((soleTree header descriptor).put ["o"] .directory).put ["o", "p"] .directory).put
    ["o", "p", "cfg"] .directory

theorem locate_generated {t : FileTree} (h : t.workingDir = []) :
    t.locate "p.json" = .ok ["p.json"] ∧ t.locate "o/p/cfg/c.h" = .ok ["o", "p", "cfg", "c.h"]
      ∧ t.locate "o/Makefile" = .ok ["o", "Makefile"]
      ∧ t.locate "o/p/p_wiz.mk" = .ok ["o", "p", "p_wiz.mk"]
      ∧ t.locate "o/p/p_user.mk" = .ok ["o", "p", "p_user.mk"] := by
  refine ⟨locate_relative h ?_, locate_relative h ?_, locate_relative h ?_, locate_relative h ?_,
    locate_relative h ?_⟩ <;> decide

theorem makeDirectories_soleTree (header descriptor : String) :
    (soleTree header descriptor).makeDirectories "o/p/cfg" = (.ok (), madeTree header descriptor) := by
  have hparts : FileTree.partsOf? "o/p/cfg" = .ok ["o", "p", "cfg"] := by decide
  have hshort : ∀ name ∈ ["o", "p", "cfg"], FileTree.isTooLong name = false := by decide
  have hstart : (soleTree header descriptor).startOf "o/p/cfg" = [] := by
    rw [FileTree.startOf, if_neg (by decide)]
    rfl
  simp [FileTree.makeDirectories, hparts, hstart, FileTree.makeWay, FileTree.entry?_put,
    entry?_soleTree, FileTree.key, madeTree, hshort]

theorem makeDirectories_of_made {t : FileTree} (h : t.workingDir = [])
    (hout : t.entry? ["o"] = some .directory) (hproject : t.entry? ["o", "p"] = some .directory) :
    t.makeDirectories "o" = (.ok (), t) ∧ t.makeDirectories "o/p" = (.ok (), t) := by
  have hparts : FileTree.partsOf? "o" = .ok ["o"] := by decide
  have hparts' : FileTree.partsOf? "o/p" = .ok ["o", "p"] := by decide
  have hshort : ∀ name ∈ ["o", "p"], FileTree.isTooLong name = false := by decide
  have hstart : t.startOf "o" = [] ∧ t.startOf "o/p" = [] := by
    rw [FileTree.startOf, FileTree.startOf, if_neg (by decide), if_neg (by decide)]
    exact ⟨h, h⟩
  simp [FileTree.makeDirectories, hparts, hparts', hstart, FileTree.makeWay, hshort, hout, hproject]

/-- What is generated for that project, whatever the files hold. -/
def artifactsWith (copy makefile wizard user : String) : List Artifact :=
  [⟨"p/cfg/c.h", copy, false⟩, ⟨"Makefile", makefile, false⟩, ⟨"p/p_wiz.mk", wizard, false⟩,
    ⟨"p/p_user.mk", user, true⟩]

theorem destinations_artifactsWith (copy makefile wizard user : String) :
    (artifactsWith copy makefile wizard user).map (·.destination "o")
      = ["o/p/cfg/c.h", "o/Makefile", "o/p/p_wiz.mk", "o/p/p_user.mk"] := by
  have hjoin : ["p/cfg/c.h", "Makefile", "p/p_wiz.mk", "p/p_user.mk"].map (Path.join "o")
      = ["o/p/cfg/c.h", "o/Makefile", "o/p/p_wiz.mk", "o/p/p_user.mk"] := by decide
  exact hjoin

/-- The places of the generated files. -/
theorem locate_artifactsWith {t : FileTree} (h : t.workingDir = []) {copy makefile wizard user : String}
    {a : Artifact} (ha : a ∈ artifactsWith copy makefile wizard user) {place : List String}
    (hplace : t.locate (a.destination "o") = .ok place) :
    place ∈ [["o", "p", "cfg", "c.h"], ["o", "Makefile"], ["o", "p", "p_wiz.mk"],
      ["o", "p", "p_user.mk"]] := by
  have hdest : a.destination "o" ∈ (artifactsWith copy makefile wizard user).map (·.destination "o") :=
    List.mem_map_of_mem ha
  obtain ⟨-, h₂, h₃, h₄, h₅⟩ := locate_generated h
  rw [destinations_artifactsWith] at hdest
  simp only [List.mem_cons, List.not_mem_nil, or_false] at hdest ⊢
  rcases hdest with hdest | hdest | hdest | hdest <;> rw [hdest] at hplace
  · exact .inl (Except.ok.inj (hplace.symm.trans h₂))
  · exact .inr (.inl (Except.ok.inj (hplace.symm.trans h₃)))
  · exact .inr (.inr (.inl (Except.ok.inj (hplace.symm.trans h₄))))
  · exact .inr (.inr (.inr (Except.ok.inj (hplace.symm.trans h₅))))

/-- They go to different places, and none to that of the descriptor. -/
theorem pairwise_apart_artifactsWith {t : FileTree} (h : t.workingDir = [])
    (copy makefile wizard user : String) :
    ("p.json" :: (artifactsWith copy makefile wizard user).map (·.destination "o")).Pairwise
      t.Apart := by
  obtain ⟨h₁, h₂, h₃, h₄, h₅⟩ := locate_generated h
  have hapart : ∀ {path other place place'}, t.locate path = .ok place → t.locate other = .ok place' →
      FileTree.key place ≠ FileTree.key place' → t.Apart path other := by
    intro path other place place' hpath hother hkey p p' hp hp'
    rw [hpath, Except.ok.injEq] at hp
    rw [hother, Except.ok.injEq] at hp'
    rwa [← hp, ← hp']
  rw [destinations_artifactsWith]
  simp only [List.pairwise_cons, List.mem_cons, List.not_mem_nil, or_false, forall_eq_or_imp,
    forall_eq, List.Pairwise.nil, and_true]
  refine ⟨⟨hapart h₁ h₂ ?_, hapart h₁ h₃ ?_, hapart h₁ h₄ ?_, hapart h₁ h₅ ?_⟩,
    ⟨hapart h₂ h₃ ?_, hapart h₂ h₄ ?_, hapart h₂ h₅ ?_⟩, ⟨hapart h₃ h₄ ?_, hapart h₃ h₅ ?_⟩,
    hapart h₄ h₅ ?_, by simp⟩ <;> decide

/-- Generating puts each artifact into its directory, that of the user as well. -/
theorem exists_writeAll_soleTree (header descriptor copy makefile wizard user : String) :
    ∃ written t, Artifact.writeAll (soleTree header descriptor) "o"
        (artifactsWith copy makefile wizard user) = (.ok written, t)
      ∧ t.entry? ["o", "p", "p_user.mk"] = some (.file (.text user)) := by
  have hjoin : Path.join "o" "p/cfg/c.h" = "o/p/cfg/c.h"
      ∧ Path.join "o" "Makefile" = "o/Makefile"
      ∧ Path.join "o" "p/p_wiz.mk" = "o/p/p_wiz.mk"
      ∧ Path.join "o" "p/p_user.mk" = "o/p/p_user.mk" := by
    decide
  have hparent : Path.parent? "o/p/cfg/c.h" = some "o/p/cfg" ∧ Path.parent? "o/Makefile" = some "o"
      ∧ Path.parent? "o/p/p_wiz.mk" = some "o/p" ∧ Path.parent? "o/p/p_user.mk" = some "o/p" := by
    decide
  refine ⟨_, _, Artifact.writeAll_cons_of_none hjoin.1 hparent.1 (makeDirectories_soleTree ..)
    (locate_generated rfl).2.1 ?_ ?_ <|
    Artifact.writeAll_cons_of_none hjoin.2.1 hparent.2.1 (makeDirectories_of_made rfl ?_ ?_).1
      (locate_generated rfl).2.2.1 ?_ ?_ <|
    Artifact.writeAll_cons_of_none hjoin.2.2.1 hparent.2.2.1 (makeDirectories_of_made rfl ?_ ?_).2
      (locate_generated rfl).2.2.2.1 ?_ ?_ <|
    Artifact.writeAll_cons_of_none hjoin.2.2.2 hparent.2.2.2 (makeDirectories_of_made rfl ?_ ?_).2
      (locate_generated rfl).2.2.2.2 ?_ ?_ rfl, FileTree.entry?_put_self (by decide) _⟩
  all_goals simp [FileTree.entry?_put, entry?_soleTree, FileTree.key, madeTree]

namespace Command

section

variable {s : Session} {enabled : List String} {parameters : NameMap (NameMap String)}
  {savedAt : Option Instant} {copy : String}

/-- What is generated for that project. -/
theorem exists_artifactsOf_soleProject (hproject : s.project = soleProject enabled parameters savedAt)
    (hsettings : s.settings = {})
    (hheaders : Artifact.ofHeaders (soleProject enabled parameters savedAt) "cfg"
      s.catalog.syncAutoenabled.2 = [⟨"p/cfg/c.h", copy, false⟩]) (tree : FileTree) :
    ∃ makefile wizard user, artifactsOf s tree = .ok (artifactsWith copy makefile wizard user) := by
  have hjoin : Path.join "p" ("p" ++ "_wiz.mk") = "p/p_wiz.mk"
      ∧ Path.join "p" ("p" ++ "_user.mk") = "p/p_user.mk" := by
    decide
  have hall : artifactsOf s tree = .ok (Artifact.ofCatalog tree (soleProject enabled parameters savedAt)
      (TemplateSet.builtin .current "p") "cfg" s.catalog s.files) := by
    unfold artifactsOf
    rw [hproject, hsettings]
    rfl
  rw [hall, Artifact.ofCatalog, hheaders]
  dsimp only [TemplateSet.builtin]
  rw [hjoin.1, hjoin.2]
  exact ⟨_, _, _, rfl⟩

/-- The artifacts and the descriptor of that project go nowhere near the source tree. -/
theorem readsAlike_put_soleTree {header descriptor makefile wizard user : String}
    {written : List String} {t : FileTree}
    (hdeclares : Catalog.declarationsOf [] "c.h" header = .ok ⟨none, .empty⟩)
    (hwrite : Artifact.writeAll (soleTree header descriptor) "o"
      (artifactsWith copy makefile wizard user) = (.ok written, t)) (text : String) :
    Catalog.ReadsAlike {} [] (soleTree header descriptor) "s"
      (t.put ["p.json"] (.file (.text text))) "s" := by
  have hgrows := Artifact.grows_of_writeAll hwrite
  have hworking : t.workingDir = [] := hgrows.workingDir
  obtain ⟨old, hold⟩ := hgrows.file ["p.json"] (.text descriptor) (by
    simp [entry?_soleTree, FileTree.key])
  have hsaves : t.Grows (t.put ["p.json"] (.file (.text text))) :=
    FileTree.grows_put (.inr ⟨_, _, hold, rfl⟩)
  have hroot : FileTree.entry? (soleTree header descriptor) ["s"] = some .directory := by
    simp [entry?_soleTree, FileTree.key]
  have hsource : ∀ name ∈ ["c.h", "m.c"], ∃ text,
      FileTree.entry? (soleTree header descriptor) ["s", name] = some (.file (.text text)) := by
    simp [entry?_soleTree, FileTree.key]
  obtain ⟨hdir, hnames⟩ := locate_sources (t := soleTree header descriptor) rfl
  have hapart : ∀ place ∈ [["o", "p", "cfg", "c.h"], ["o", "Makefile"], ["o", "p", "p_wiz.mk"],
      ["o", "p", "p_user.mk"], ["p.json"]], ¬ FileTree.IsBelow ["s"] place
        ∧ ∀ name ∈ ["c.h", "m.c"], FileTree.key place ≠ FileTree.key ["s", name] := by
    decide
  refine Catalog.readsAlike_soleTree hdeclares ?_ ?_ fun name hname => ?_
  · rw [FileTree.find?_eq_some_iff.2 ⟨_, hdir, hroot⟩]
    exact FileTree.find?_eq_some_iff.2
      ⟨_, hsaves.locate (hgrows.locate hdir), hsaves.directory _ (hgrows.directory _ hroot)⟩
  · have hwritten := Artifact.filesBelow_writeAll hwrite hdir hroot fun a ha place hplace =>
      (hapart place (List.mem_append_left [_] (locate_artifactsWith hworking ha hplace))).1
    rw [FileTree.filesBelow_put hsaves (hgrows.locate hdir) (hgrows.directory _ hroot)
      (.inr (hapart _ (by simp)).1), hwritten]
  · obtain ⟨source, hsource⟩ := hsource name hname
    have hwritten := Artifact.entry?_writeAll hwrite hsource fun a ha place hplace =>
      (hapart place (List.mem_append_left [_] (locate_artifactsWith hworking ha hplace))).2 name hname
    rw [FileTree.find?_eq_some_iff.2 ⟨_, hnames name hname, hsource⟩]
    refine FileTree.find?_eq_some_iff.2 ⟨_, (locate_sources (t := t.put _ _) hworking).2 name hname, ?_⟩
    rw [FileTree.entry?_put, if_neg fun hkey => (hapart _ (by simp)).2 name hname hkey.2, hwritten]

/-- That project can be generated, which leaves what is read of the source tree. -/
theorem exists_generate_soleTree {header descriptor makefile wizard user : String}
    (hdescriptor : s.descriptor = "p.json")
    (hproject : s.project = soleProject enabled parameters savedAt)
    (hdeclares : Catalog.declarationsOf [] "c.h" header = .ok ⟨none, .empty⟩)
    (hartifacts : artifactsOf s (soleTree header descriptor)
      = .ok (artifactsWith copy makefile wizard user)) (now : Instant) :
    ∃ progress, execute (generate s now false) (soleTree header descriptor) = (.ok (), progress)
      ∧ progress.tree.workingDir = []
      ∧ Catalog.ReadsAlike {} [] (soleTree header descriptor) "s" progress.tree "s" := by
  obtain ⟨written, t, hwrite, -⟩ :=
    exists_writeAll_soleTree header descriptor copy makefile wizard user
  have hgrows := Artifact.grows_of_writeAll hwrite
  have hworking : t.workingDir = [] := hgrows.workingDir
  -- the session is saved behind the artifacts
  obtain ⟨hlocate, -⟩ := locate_generated hworking
  obtain ⟨old, hold⟩ := hgrows.file ["p.json"] (.text descriptor) (by
    simp [entry?_soleTree, FileTree.key])
  obtain ⟨text, hsave⟩ := s.exists_save_of_file now (hdescriptor ▸ hlocate) hold
  have hout : s.project.outputDir = "o" := by rw [hproject]; rfl
  obtain ⟨progress, htree, hrun⟩ :=
    exists_generate_of_writeAll hartifacts (hout.symm ▸ hwrite) hsave
  refine ⟨progress, hrun, by rw [htree]; exact hworking, ?_⟩
  rw [htree]
  exact readsAlike_put_soleTree hdeclares hwrite text

/-- A session of that project finds what it found, wherever the source tree is read as before. -/
theorem readsAlike_soleProject {tree tree' : FileTree} (hsettings : s.settings = {})
    (hproject : s.project = soleProject enabled parameters savedAt) (hgenerates : s.Generates "c.h")
    (hheaders : ∀ path h, s.catalog.headers.get? path = some h → path = "c.h")
    (hsources : Catalog.ReadsAlike {} [] tree "s" tree' "s") :
    s.ReadsAlike tree tree' (s.project.reopened "p.json") := by
  have hreopened : s.project.reopened "p.json" = s.project := by
    rw [hproject, Project.reopened_soleProject]
  rw [hreopened]
  refine ⟨rfl, by rw [hsettings, hproject]; exact hsources, ?_, fun path h hpath => ?_⟩
  · intro dir hdir
    rw [hsettings] at hdir
    cases hdir
  · exact .inr ⟨"c.h", hgenerates, by rw [hheaders path h hpath]⟩

end

/-! ## A number -/

theorem lasting_rate :
    (⟨"c.h", [rate "10"], by simp, rateText⟩ : Header).Lasting := by
  have hkeeps : (⟨"c.h", [rate "10"], by simp, rateText⟩ : Header).keeps (rate "10") = true := by
    decide
  have hasked : ∀ d ∈ Comment.documentedDefines rateText.toList,
      ∀ comment ∈ (Header.Comment.ofLines d.comment).toOption,
        comment.directives.unsigned = false ∧ comment.directives.long = false := by
    decide +kernel
  refine ⟨fun q hq hplace => ?_, fun q hq _ d hd _ comment hcomment => ?_⟩
  · rw [List.mem_singleton.1 hq, hkeeps] at hplace
    cases hplace
  · obtain ⟨hunsigned, hlong⟩ := hasked d hd comment (Outcome.toOption_eq_some_iff.2 hcomment)
    rw [List.mem_singleton.1 hq]
    refine ⟨by decide, fun htype => ?_, fun _ => by decide, fun _ hasks => ?_,
      fun _ hasks => ?_, fun _ _ hasks => ?_⟩
    · cases htype
    · rw [hunsigned] at hasks
      cases hasks
    · rw [hlong] at hasks
      cases hasks
    · rw [hunsigned, hlong] at hasks
      simp at hasks

def wordText : String :=
  "/// $WIZ$ type = \"boolean\"\n#define X true\n"

/-- The parameter that is declared there, with some value. -/
def word (value : String) : Parameter where
  name := "X"
  value
  type := .boolean
  min := none
  max := none
  long := false
  unsigned := false
  valueList := none
  conditionalDeps := []
  supports := none
  brief := ""
  description := ""
  extra := .empty
  span := ⟨37, 41⟩

def wordHeader (value : String) : Header :=
  ⟨"c.h", [word value], by simp, wordText⟩

def wordCatalog (value : String) : Catalog :=
  .build "s" [soleModule] [wordHeader value] []

/-- The same with the module enabled. -/
def wordCatalogOn (value : String) : Catalog :=
  { wordCatalog value with
    modules := .ofList [("m", { soleModule with enabled := true })]
    explicit := .ofList ["m"] }

theorem parse_wordText : Header.parse "c.h" wordText = .ok (wordHeader "true") :=
  Outcome.toOption_eq_some_iff.1 (by decide +kernel)

theorem declares_wordText : Catalog.declarationsOf [] "c.h" wordText = .ok ⟨none, .empty⟩ := by
  cbv

/-- In the session that follows the first one, the value has the form that booleans are kept in. -/
theorem catalog_of_generate_word {files : FileIndex} {progress : Progress} {s : Session}
    {missing : List String} {tree : FileTree}
    (hscan : Catalog.load {} [] tree "s" = .ok (wordCatalog "true", files))
    (hload : Session.load {} tree "p.json" = .ok (⟨{}, "p.json", soleProject ["m"] .empty none,
      wordCatalogOn "true", files⟩, []))
    (hrun : execute (generate ⟨{}, "p.json", soleProject ["m"] .empty none, wordCatalogOn "true",
      files⟩ epoch false) tree = (.ok (), progress))
    (hsources : Catalog.ReadsAlike {} [] tree "s" progress.tree "s")
    (hcopy : Project.copyOf? progress.tree "o/p/cfg" "c.h" = some (.ok wordText))
    (hload' : Session.load {} progress.tree "p.json" = .ok (s, missing)) :
    s.settings = {} ∧ s.catalog = wordCatalogOn "1" ∧ ∃ parameters,
      s.project = soleProject ["m"] parameters (some epoch) := by
  have hgrows := grows_of_generate hrun
  obtain ⟨-, -, t, -, -, hsave⟩ := exists_writeAll_of_generate hrun
  obtain ⟨saved, hsaved⟩ := Session.save_eq_ok_iff.1 hsave
  have hcapture : (soleProject ["m"] .empty none).capture (wordCatalogOn "true")
      = soleProject ["m"] (.ofList [("c.h", .ofList [("X", "true")])]) none := by decide
  rw [hcapture] at hsaved
  obtain ⟨files', hscan', -⟩ := Catalog.load_of_readsAlike hscan hsources
  obtain ⟨n, hmerge⟩ : ∃ n, Project.mergeGenerated progress.tree "o/p/cfg" (wordCatalog "true")
      = (.ok n, (wordCatalog "true").modifyHeader "c.h" (·.merge (wordHeader "true"))) :=
    ⟨_, Project.mergeHeaders_cons_eq_ok_iff.2 ⟨_, _, _,
      Project.mergeHeader_of_copy hcopy parse_wordText rfl, rfl, rfl⟩⟩
  obtain ⟨s', missing', hagain, hsettings, hproject, -, hcatalog⟩ :=
    Session.exists_load_of_save
      (p := soleProject ["m"] (.ofList [("c.h", .ofList [("X", "true")])]) none)
      hload hgrows ⟨rfl, rfl⟩ isShown_epoch hsaved
      (by rw [Project.reopened_soleProject]; exact hscan')
      (by rw [Project.reopened_soleProject, Settings.configDirIn_soleProject]; exact hmerge)
  rw [hagain, Except.ok.injEq, Prod.mk.injEq] at hload'
  obtain ⟨rfl, -⟩ := hload'
  refine ⟨hsettings, hcatalog.trans ?_, _, hproject.trans Project.reopened_soleProject⟩
  cbv

end Command

end Configurator
