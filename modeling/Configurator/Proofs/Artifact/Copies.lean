import Configurator.Proofs.Artifact.Rendering
import Configurator.Proofs.Artifact.Writing
import Configurator.Proofs.Places
import Configurator.Proofs.Project.Merging

/-!
# Copies of headers that take each other's place

The copy of a header is named for the file alone and not for the directory that the header is in. So
headers in different directories are written to one place if their files have the same name, the last
one stays, and its values are taken over for all of them. Nothing else that is generated for a project
can clash (`Artifact.pairwise_ofCatalog_iff`), so that the paths are distinct exactly if the files have
different names, and each header finds its own copy again exactly if those with one file name are written
alike (`Artifact.distinct_ofCatalog_iff`).
-/

namespace Configurator

open Configurator.Path (IsName IsMadeOf)

/-! ## Where copies are looked for -/

namespace Project

variable {tree : FileTree} {p : Project} {configDir path name text : String}

/-- A copy is looked for where it is generated. -/
theorem join_headerPath (p : Project) (configDir : String) (hname : Path.fileName? path = some name) :
    Path.join (Path.join p.directory configDir) name
      = Path.join p.outputDir (Artifact.headerPath p configDir path) := by
  rw [Project.directory, Artifact.headerPath, hname, Option.getD_some, Path.join_join, Path.join_join,
    Path.join_join]

/-- A generated copy that stands where it was put is what is found for its header. -/
theorem copyOf?_of_find? (hname : Path.fileName? path = some name)
    (hfound : tree.find? (Path.join p.outputDir (Artifact.headerPath p configDir path))
      = some (.file (.text text))) :
    copyOf? tree (Path.join p.directory configDir) path = some (.ok text) := by
  rw [← join_headerPath p configDir hname] at hfound
  have hfile : tree.isFile (Path.join (Path.join p.directory configDir) name) = true := by
    rw [FileTree.isFile, hfound]
  rw [copyOf?, hname, Option.bind_some, if_pos hfile,
    FileTree.read_eq_ok_iff.2 (FileTree.find?_eq_some_iff.1 hfound)]

end Project

/-! ## Paths of templates -/

namespace TemplateSet

variable {tree : FileTree} {family : Template.Family} {project : String} {dir : Option String}
  {set : TemplateSet}

/-- One template goes into the output directory and the others into that of the project. -/
theorem exists_outputs_of_load (h : load tree family project dir = .ok set) :
    ∃ ending, FileTree.IsEnding ending ∧ ending ≠ "_user.mk"
      ∧ set.templates.map (·.output) = ["Makefile", Path.join project (project ++ ending),
        Path.join project (project ++ "_user.mk")] := by
  have hsame : set.templates.map (·.output) = (builtin family project).templates.map (·.output) := by
    have hload := exists_of_load h
    generalize (builtin family project).templates = builtins at hload
    generalize set.templates = templates at hload
    induction hload with
    | nil => rfl
    | cons hone _ ih =>
        obtain ⟨text, rfl⟩ := hone
        rw [List.map_cons, List.map_cons, ih]
  rw [hsame]
  cases family with
  | current => exact ⟨"_wiz.mk", ⟨by decide, by decide⟩, by decide, rfl⟩
  | legacy => exact ⟨".mk", ⟨by decide, by decide⟩, by decide, rfl⟩

/-- A name with an ending is a name. -/
theorem isName_append (hname : IsName project.toList) {ending : String}
    (hending : FileTree.IsEnding ending) : IsName (project ++ ending).toList := by
  have hshort : ∀ part : List Char, part.length < 3 → (project ++ ending).toList ≠ part := by
    rintro part hpart rfl
    have hlength := hending.length
    rw [String.length_toList, String.length_append] at hpart
    omega
  refine ⟨hshort _ (by decide), hshort _ (by decide), hshort _ (by decide), ?_⟩
  rw [String.toList_append, List.mem_append]
  exact not_or.2 ⟨hname.slash, hending.slash⟩

/-- The paths of templates consist of one or two names and differ in them. -/
theorem exists_names_of_load (h : load tree family project dir = .ok set)
    (hname : IsName project.toList) :
    ∃ names : List (List String), List.Forall₂ IsMadeOf (set.templates.map (·.output)) names
      ∧ names.Pairwise (· ≠ ·) ∧ ∀ ns ∈ names, ns.length < 3 := by
  obtain ⟨ending, hending, hne, houtputs⟩ := exists_outputs_of_load h
  have hmake : IsMadeOf "Makefile" ["Makefile"] := IsName.isMadeOf (by decide)
  have hown := hname.isMadeOf.join (isName_append hname hending).isMadeOf
  have huser := hname.isMadeOf.join (isName_append hname Artifact.isEnding_user).isMadeOf
  rw [houtputs]
  refine ⟨[["Makefile"], [project, project ++ ending], [project, project ++ "_user.mk"]],
    .cons hmake (.cons hown (.cons huser .nil)), ?_, ?_⟩
  · simpa [String.append_right_inj] using hne
  · simp

end TemplateSet

/-! ## What can clash -/

namespace Artifact

variable {tree source disk disk' : FileTree} {p : Project} {configDir path : String}
  {dir : Option String} {family : Template.Family} {templates : TemplateSet} {c : Catalog}
  {index : FileIndex} {k : Header} {written : List String}

/-- Whether a header is generated for a catalogue, with the values that it is generated with: an enabled
module is bound to it. -/
def Generates (c : Catalog) (path : String) (k : Header) : Prop :=
  path ∈ referencedHeaders c.syncAutoenabled.2 ∧ c.syncAutoenabled.2.headers.get? path = some k

/-- The headers that are generated, by path. -/
def generated (c : Catalog) : List (String × Header) :=
  (referencedHeaders c.syncAutoenabled.2).toList.filterMap fun path =>
    (c.syncAutoenabled.2.headers.get? path).map fun k => (path, k)

/-- The copy of a header that is generated. -/
def copyOf (p : Project) (configDir : String) (e : String × Header) : Artifact :=
  ⟨headerPath p configDir e.1, e.2.render, false⟩

theorem mem_generated {e : String × Header} : e ∈ generated c ↔ Generates c e.1 e.2 := by
  unfold generated Generates
  rw [List.mem_filterMap]
  constructor
  · rintro ⟨path, hpath, he⟩
    obtain ⟨k, hk, rfl⟩ := Option.map_eq_some_iff.1 he
    exact ⟨NameSet.mem_toList.1 hpath, hk⟩
  · rintro ⟨hpath, hk⟩
    exact ⟨e.1, NameSet.mem_toList.2 hpath, by rw [hk]; rfl⟩

theorem nodup_generated (c : Catalog) : (generated c).Nodup := by
  refine List.Nodup.filterMap (fun path path' e he he' => ?_) ?_
  · obtain ⟨k, -, rfl⟩ := Option.map_eq_some_iff.1 he
    obtain ⟨k', -, heq⟩ := Option.map_eq_some_iff.1 he'
    exact (Prod.mk.inj heq).1.symm
  · exact (NameSet.sorted_toList _).imp fun hlt => String.ne_of_lt hlt

theorem ofHeaders_eq (p : Project) (configDir : String) (c : Catalog) :
    ofHeaders p configDir c.syncAutoenabled.2 = (generated c).map (copyOf p configDir) := by
  rw [ofHeaders, generated, List.map_filterMap]
  refine List.filterMap_congr fun path _ => ?_
  rw [Option.map_map]
  rfl

/-- Headers that are generated have file names, if they were read from a tree. -/
theorem Generates.exists_fileName? {settings : Settings} {tags : List String} {sourceRoot : String}
    {loaded : Catalog} {files : FileIndex}
    (hload : Catalog.load settings tags tree sourceRoot = .ok (loaded, files)) (hrooted : tree.IsRooted)
    (hdeclared : c.declared = loaded.declared) (h : Generates c path k) :
    ∃ file, Path.fileName? path = some file := by
  obtain ⟨k', hk', -⟩ := Catalog.exists_header
    ((Catalog.declared_syncAutoenabled c).trans hdeclared) h.2
  exact FileTree.exists_fileName?_of_isFile hrooted
    (Catalog.readHeader_eq_some (Catalog.readHeader_of_load hload hk')).1

/-- The copy of a header lies two directories down. -/
theorem isMadeOf_headerPath (hname : IsName p.name.toList) (hdir : IsName configDir.toList)
    {file : String} (hfile : Path.fileName? path = some file) :
    IsMadeOf (headerPath p configDir path) [p.name, configDir, file] := by
  rw [headerPath, hfile, Option.getD_some]
  exact (hname.isMadeOf.join hdir.isMadeOf).join (Path.isName_of_fileName? hfile).isMadeOf

/-- What paths of different names ensure can only fail among the copies of headers. -/
theorem pairwise_ofCatalog_iff {R : Artifact → Artifact → Prop} (hname : IsName p.name.toList)
    (hdir : IsName configDir.toList)
    (hload : TemplateSet.load source family p.name dir = .ok templates)
    (hnamed : ∀ path k, Generates c path k → ∃ file, Path.fileName? path = some file)
    (hR : ∀ a b names names', IsMadeOf a.path names → IsMadeOf b.path names' → names ≠ names' → R a b) :
    (ofCatalog tree p templates configDir c index).Pairwise R
      ↔ ((generated c).map (copyOf p configDir)).Pairwise R := by
  obtain ⟨names, houtputs, hdistinct, hshort⟩ := TemplateSet.exists_names_of_load hload hname
  have hmade : ∀ tokens, List.Forall₂ (fun ns a => IsMadeOf a.path ns) names
      (templates.templates.map (ofTemplate tokens)) := fun tokens => by
    rw [List.forall₂_map_left_iff] at houtputs
    exact List.forall₂_map_right_iff.2 houtputs.flip
  unfold ofCatalog
  dsimp only
  rw [ofHeaders_eq, List.pairwise_append, and_iff_left_iff_imp]
  refine fun _ => ⟨pairwise_of_forall₂ (hmade _) hdistinct
    fun ns ns' a b ha hb hne => hR a b ns ns' ha hb hne, fun a ha b hb => ?_⟩
  obtain ⟨e, he, rfl⟩ := List.mem_map.1 ha
  obtain ⟨file, hfile⟩ := hnamed e.1 e.2 (mem_generated.1 he)
  obtain ⟨ns, hns, hb⟩ := exists_of_forall₂ (hmade _) hb
  refine hR _ b _ ns (isMadeOf_headerPath hname hdir hfile) hb ?_
  rintro rfl
  exact absurd (hshort _ hns) (by simp)

/-- The copies of headers go to different paths exactly if the headers have different file names. -/
theorem headerPath_eq_iff (hname : IsName p.name.toList) (hdir : IsName configDir.toList)
    {path' file file' : String} (hfile : Path.fileName? path = some file)
    (hfile' : Path.fileName? path' = some file') :
    Path.components (headerPath p configDir path) = Path.components (headerPath p configDir path')
      ↔ Path.fileName? path = Path.fileName? path' := by
  rw [(isMadeOf_headerPath hname hdir hfile).components_eq_iff
    (isMadeOf_headerPath hname hdir hfile'), hfile, hfile']
  simp

/-- Copies of headers that are written alike and have one file name are the same artifact. -/
theorem copyOf_eq {e e' : String × Header} {file : String} (hfile : Path.fileName? e.1 = some file)
    (hfile' : Path.fileName? e'.1 = some file) (hrender : e.2.render = e'.2.render) :
    copyOf p configDir e = copyOf p configDir e' := by
  rw [copyOf, copyOf, headerPath, headerPath, hfile, hfile', Option.getD_some, Option.getD_some,
    hrender]

/-- Once they are written, all copies of headers are found where they were put, if those with one file
name are written alike. -/
theorem find?_copy (hname : IsName p.name.toList) (hdir : IsName configDir.toList)
    (hload : TemplateSet.load source family p.name dir = .ok templates)
    (hnamed : ∀ path k, Generates c path k → ∃ file, Path.fileName? path = some file)
    (hwrite : writeAll disk p.outputDir (ofCatalog tree p templates configDir c index)
      = (.ok written, disk'))
    (halike : ∀ path k path' k', Generates c path k → Generates c path' k' →
      Path.fileName? path = Path.fileName? path' → k.render = k'.render) (h : Generates c path k) :
    disk'.find? (Path.join p.outputDir (headerPath p configDir path))
      = some (.file (.text k.render)) := by
  have hpairwise : (ofCatalog tree p templates configDir c index).Pairwise fun a b =>
      disk'.Apart (a.destination p.outputDir) (b.destination p.outputDir) ∨ a = b := by
    refine (pairwise_ofCatalog_iff hname hdir hload hnamed fun a b names names' ha hb hne =>
      .inl (FileTree.apart_join ha hb hne disk' p.outputDir)).2 (List.pairwise_map.2 ?_)
    refine (nodup_generated c).pairwise_of_forall_ne fun e he e' he' _ => ?_
    have hgen := mem_generated.1 he
    have hgen' := mem_generated.1 he'
    obtain ⟨file, hfile⟩ := hnamed _ _ hgen
    obtain ⟨file', hfile'⟩ := hnamed _ _ hgen'
    by_cases heq : file = file'
    · subst heq
      exact .inr (copyOf_eq hfile hfile' (halike _ _ _ _ hgen hgen' (hfile.trans hfile'.symm)))
    · exact .inl (FileTree.apart_join (isMadeOf_headerPath hname hdir hfile)
        (isMadeOf_headerPath hname hdir hfile') (by simpa using heq) disk' p.outputDir)
  refine find?_writeAll_of_same hwrite hpairwise (a := copyOf p configDir (path, k)) ?_ rfl
  unfold ofCatalog
  dsimp only
  rw [ofHeaders_eq]
  exact List.mem_append_left _ (List.mem_map_of_mem (mem_generated.2 h))

/-- The paths of what is generated are distinct exactly if the headers have different file names. -/
theorem nodup_ofCatalog_iff (hname : IsName p.name.toList) (hdir : IsName configDir.toList)
    (hload : TemplateSet.load source family p.name dir = .ok templates)
    (hnamed : ∀ path k, Generates c path k → ∃ file, Path.fileName? path = some file) :
    ((ofCatalog tree p templates configDir c index).map fun a => Path.components a.path).Nodup
      ↔ ∀ path k path' k', Generates c path k → Generates c path' k' →
        Path.fileName? path = Path.fileName? path' → path = path' := by
  have hpaths : ∀ path k path' k', Generates c path k → Generates c path' k' →
      (Path.components (headerPath p configDir path) = Path.components (headerPath p configDir path')
        ↔ Path.fileName? path = Path.fileName? path') := by
    intro path k path' k' h h'
    obtain ⟨file, hfile⟩ := hnamed path k h
    obtain ⟨file', hfile'⟩ := hnamed path' k' h'
    exact headerPath_eq_iff hname hdir hfile hfile'
  have hdistinct := List.nodup_map_iff_inj_on (nodup_generated c)
    (f := fun e => Path.components (copyOf p configDir e).path)
  rw [List.Nodup, List.pairwise_map] at hdistinct ⊢
  rw [pairwise_ofCatalog_iff hname hdir hload hnamed
    fun a b names names' ha hb hne heq => hne ((ha.components_eq_iff hb).1 heq), List.pairwise_map]
  refine hdistinct.trans ⟨fun hown path k path' k' h h' hsame => ?_, fun hown e he e' he' heq => ?_⟩
  · exact congrArg Prod.fst (hown (path, k) (mem_generated.2 h) (path', k') (mem_generated.2 h')
      ((hpaths path k path' k' h h').2 hsame))
  · have h := mem_generated.1 he
    have h' := mem_generated.1 he'
    have hpath := hown _ _ _ _ h h' ((hpaths _ _ _ _ h h').1 heq)
    exact Prod.ext hpath (Option.some.inj (h.2.symm.trans (hpath ▸ h'.2)))

/-- Two copies of one file name that are both found where they were put are written alike. -/
theorem render_eq_of_find? {path' : String} {k' : Header}
    (hnamed : ∀ path k, Generates c path k → ∃ file, Path.fileName? path = some file)
    (hfound : ∀ path k, Generates c path k →
      disk'.find? (Path.join p.outputDir (headerPath p configDir path)) = some (.file (.text k.render)))
    (h : Generates c path k) (h' : Generates c path' k')
    (hsame : Path.fileName? path = Path.fileName? path') : k.render = k'.render := by
  obtain ⟨file, hfile⟩ := hnamed path k h
  have hk := hfound path k h
  have hk' := hfound path' k' h'
  rw [headerPath, hfile, Option.getD_some] at hk
  rw [headerPath, ← hsame, hfile, Option.getD_some, hk] at hk'
  simpa using hk'

/-- The paths of what is generated for a project are distinct exactly if the headers that enabled modules
are bound to have different file names. Once it is written, each of these headers is found where it was
put as it was written, and that is taken over for it, exactly if those with one file name are written
alike. -/
theorem distinct_ofCatalog_iff (hname : IsName p.name.toList) (hdir : IsName configDir.toList)
    (hload : TemplateSet.load source family p.name dir = .ok templates)
    (hnamed : ∀ path k, Generates c path k → ∃ file, Path.fileName? path = some file) :
    (((ofCatalog tree p templates configDir c index).map fun a => Path.components a.path).Nodup
        ↔ ∀ path k path' k', Generates c path k → Generates c path' k' →
          Path.fileName? path = Path.fileName? path' → path = path')
      ∧ ∀ disk disk' written,
        writeAll disk p.outputDir (ofCatalog tree p templates configDir c index) = (.ok written, disk') →
          ((∀ path k, Generates c path k →
              disk'.find? (Path.join p.outputDir (headerPath p configDir path))
                  = some (.file (.text k.render))
                ∧ ∀ d, Project.mergeHeader disk' (Path.join p.directory configDir) d path
                  = d.applyUserConfiguration path k.render)
            ↔ ∀ path k path' k', Generates c path k → Generates c path' k' →
              Path.fileName? path = Path.fileName? path' → k.render = k'.render) := by
  refine ⟨nodup_ofCatalog_iff hname hdir hload hnamed, fun disk disk' written hwrite =>
    ⟨fun hfound path k path' k' h h' hsame => ?_, fun halike path k h => ?_⟩⟩
  · exact render_eq_of_find? hnamed (fun path k h => (hfound path k h).1) h h' hsame
  · obtain ⟨file, hfile⟩ := hnamed path k h
    have hfound := find?_copy hname hdir hload hnamed hwrite halike h
    refine ⟨hfound, fun d => ?_⟩
    rw [Project.mergeHeader_eq, Project.copyOf?_of_find? hfile hfound]

/-! ## Two headers -/

def boundModule (name configuration : String) : Module :=
  { (default : Module) with name, configuration := some configuration, enabled := true }

def ratedText (value : String) : String :=
  "/// Rate\n#define RATE " ++ value ++ "\n"

/-- A header with one parameter, which has a digit as its value. -/
def ratedHeader (path value : String) : Header where
  path
  params := [{ (default : Parameter) with name := "RATE", value, type := .integer, span := ⟨22, 23⟩ }]
  names_nodup := by simp
  source := ratedText value

/-- Two enabled modules with a header each. -/
def twoHeaders (path path' : String) : Catalog :=
  { Catalog.build "src" [] [ratedHeader path "1", ratedHeader path' "2"] [] with
    modules := .ofList [("a", boundModule "a" path), ("b", boundModule "b" path')] }

def demoProject : Project :=
  { (default : Project) with version := Project.currentVersion, name := "demo" }

def demoArtifacts (path path' : String) : List Artifact :=
  ofCatalog default demoProject (.builtin demoProject.family demoProject.name) "cfg"
    (twoHeaders path path') default

theorem generates_twoHeaders :
    Generates (twoHeaders "a/a.h" "b/b.h") path k
      ↔ (path = "a/a.h" ∧ k = ratedHeader path "1") ∨ (path = "b/b.h" ∧ k = ratedHeader path "2") := by
  have hlist : generated (twoHeaders "a/a.h" "b/b.h")
      = [("a/a.h", ratedHeader "a/a.h" "1"), ("b/b.h", ratedHeader "b/b.h" "2")] := by
    decide +kernel
  rw [← mem_generated (e := (path, k)), hlist]
  simp only [List.mem_cons, List.not_mem_nil, or_false, Prod.mk.injEq]
  refine or_congr (and_congr_right ?_) (and_congr_right ?_) <;> rintro rfl <;> rfl

theorem exists_fileName?_twoHeaders (h : Generates (twoHeaders "a/a.h" "b/b.h") path k) :
    ∃ file, Path.fileName? path = some file := by
  rcases generates_twoHeaders.1 h with ⟨rfl, -⟩ | ⟨rfl, -⟩
  · exact ⟨"a.h", by decide⟩
  · exact ⟨"b.h", by decide⟩

theorem eq_of_fileName?_twoHeaders {path' : String} {k' : Header}
    (h : Generates (twoHeaders "a/a.h" "b/b.h") path k)
    (h' : Generates (twoHeaders "a/a.h" "b/b.h") path' k')
    (hsame : Path.fileName? path = Path.fileName? path') : path = path' ∧ k = k' := by
  have hne : Path.fileName? "a/a.h" ≠ Path.fileName? "b/b.h" := by decide
  rcases generates_twoHeaders.1 h with ⟨rfl, rfl⟩ | ⟨rfl, rfl⟩ <;>
    rcases generates_twoHeaders.1 h' with ⟨rfl, rfl⟩ | ⟨rfl, rfl⟩
  · exact ⟨rfl, rfl⟩
  · exact absurd hsame hne
  · exact absurd hsame.symm hne
  · exact ⟨rfl, rfl⟩

theorem exists_writeAll_twoHeaders :
    ∃ written disk, writeAll default "" (demoArtifacts "a/a.h" "b/b.h") = (.ok written, disk) := by
  have hok : (writeAll default "" (demoArtifacts "a/a.h" "b/b.h")).1.toOption.isSome = true := by
    decide +kernel
  rcases hall : writeAll default "" (demoArtifacts "a/a.h" "b/b.h") with ⟨e | written, disk⟩
  · rw [hall] at hok
    cases hok
  · exact ⟨written, disk, rfl⟩

/-- Headers with different file names do not clash: each is written to a file of its own, which holds its
text and is taken over for it again. -/
theorem distinct_ofCatalog_twoHeaders :
    IsName demoProject.name.toList ∧ IsName "cfg".toList
      ∧ TemplateSet.load default demoProject.family demoProject.name none
        = .ok (.builtin demoProject.family demoProject.name)
      ∧ (∀ path k, Generates (twoHeaders "a/a.h" "b/b.h") path k →
        ∃ file, Path.fileName? path = some file)
      ∧ ((demoArtifacts "a/a.h" "b/b.h").map fun a => Path.components a.path).Nodup
      ∧ ∃ written disk, writeAll default "" (demoArtifacts "a/a.h" "b/b.h") = (.ok written, disk)
        ∧ disk.find? "demo/cfg/a.h" = some (.file (.text (ratedText "1")))
        ∧ disk.find? "demo/cfg/b.h" = some (.file (.text (ratedText "2")))
        ∧ ∀ d, Project.mergeHeader disk "demo/cfg" d "a/a.h"
            = d.applyUserConfiguration "a/a.h" (ratedText "1")
          ∧ Project.mergeHeader disk "demo/cfg" d "b/b.h"
            = d.applyUserConfiguration "b/b.h" (ratedText "2") := by
  have hname : IsName demoProject.name.toList := by decide
  have hdir : IsName "cfg".toList := by decide
  have hload : TemplateSet.load default demoProject.family demoProject.name none
      = .ok (.builtin demoProject.family demoProject.name) := rfl
  have hnamed : ∀ path k, Generates (twoHeaders "a/a.h" "b/b.h") path k →
      ∃ file, Path.fileName? path = some file := fun _ _ => exists_fileName?_twoHeaders
  obtain ⟨written, disk, hwrite⟩ := exists_writeAll_twoHeaders
  obtain ⟨hpaths, htaken⟩ := @distinct_ofCatalog_iff default default demoProject "cfg" none
    demoProject.family _ _ default hname hdir hload hnamed
  have hfound := (htaken default disk written hwrite).2 fun path k path' k' h h' hsame =>
    congrArg Header.render (eq_of_fileName?_twoHeaders h h' hsame).2
  have hgen : Generates (twoHeaders "a/a.h" "b/b.h") "a/a.h" (ratedHeader "a/a.h" "1")
      ∧ Generates (twoHeaders "a/a.h" "b/b.h") "b/b.h" (ratedHeader "b/b.h" "2") := by
    simp [generates_twoHeaders]
  obtain ⟨hfirst, hfirst'⟩ := hfound _ _ hgen.1
  obtain ⟨hsecond, hsecond'⟩ := hfound _ _ hgen.2
  have hrender : (ratedHeader "a/a.h" "1").render = ratedText "1"
      ∧ (ratedHeader "b/b.h" "2").render = ratedText "2" := by
    decide +kernel
  have hplace : Path.join demoProject.outputDir (headerPath demoProject "cfg" "a/a.h") = "demo/cfg/a.h"
      ∧ Path.join demoProject.outputDir (headerPath demoProject "cfg" "b/b.h") = "demo/cfg/b.h"
      ∧ Path.join demoProject.directory "cfg" = "demo/cfg" := by
    decide
  rw [hrender.1, hplace.1] at hfirst
  rw [hrender.2, hplace.2.1] at hsecond
  rw [hrender.1, hplace.2.2] at hfirst'
  rw [hrender.2, hplace.2.2] at hsecond'
  exact ⟨hname, hdir, hload, hnamed, hpaths.2 fun path k path' k' h h' hsame =>
    (eq_of_fileName?_twoHeaders h h' hsame).1, written, disk, hwrite, hfirst, hsecond,
    fun d => ⟨hfirst' d, hsecond' d⟩⟩

/-- Headers in different directories whose files have one name are written to one place. -/
theorem not_forall_nodup_ofCatalog :
    ¬ ∀ (p : Project) (c : Catalog) (tree : FileTree) (index : FileIndex), IsName p.name.toList →
      ((ofCatalog tree p (.builtin p.family p.name) ({} : Settings).configDir c index).map
        fun a => Path.components a.path).Nodup := by
  intro h
  have hdistinct := h demoProject (twoHeaders "a/cfg.h" "b/cfg.h") default default (by decide)
  exact absurd hdistinct (by decide +kernel)

end Artifact

end Configurator
