import Configurator.Command.Session
import Configurator.Proofs.Catalog.Loading
import Configurator.Proofs.Project.Merging
import Configurator.Proofs.Project.Recording
import Configurator.Proofs.Project.Store

/-!
# Opened sessions

What opening a session comes to: the project is loaded, a fresh catalogue is read from its source tree,
the copies of headers that were generated before are merged into that, and the recorded state is brought
back (`Session.load_eq_ok_iff`). Of the generated files only what the copies of the headers hold counts
(`Project.copyOf?`), and nothing depends on how the source root is spelled (`mergeHeaders_atRoot`).
-/

namespace Configurator

/-! ## Opening -/

namespace Session

open Command (Failure)

variable {settings : Settings} {tree : FileTree} {descriptor : String} {s : Session}
  {missing : List String}

/-- A session is opened if its project, its source tree and the copies of its headers are. -/
theorem load_eq_ok_iff :
    load settings tree descriptor = .ok (s, missing)
      ↔ ∃ fresh merged n, Project.openFile tree descriptor = .ok s.project
          ∧ Catalog.load settings s.project.cpu.fileTags tree s.project.sourceRoot
            = .ok (fresh, s.files)
          ∧ Project.mergeGenerated tree (settings.configDirIn s.project.directory) fresh
            = (.ok n, merged)
          ∧ s.project.applyTo merged = (missing, s.catalog)
          ∧ s.settings = settings ∧ s.descriptor = descriptor := by
  unfold load
  simp only [Outcome.bind_eq_ok_iff, Outcome.mapError_eq_ok_iff, Prod.exists]
  constructor
  · rintro ⟨project, hopen, fresh, files, hscan, u, hmerged, h⟩
    cases hresult : Project.mergeGenerated tree (settings.configDirIn project.directory) fresh with
    | mk result merged =>
        rw [hresult] at hmerged h
        cases result with
        | error e => cases hmerged
        | ok n =>
            cases h
            exact ⟨fresh, merged, n, hopen, hscan, hresult, rfl, rfl, rfl⟩
  · rintro ⟨fresh, merged, n, hopen, hscan, hresult, happly, rfl, rfl⟩
    refine ⟨s.project, hopen, fresh, s.files, hscan, (), ?_⟩
    rw [hresult]
    refine ⟨rfl, ?_⟩
    simp only [happly]
    rfl

/-- The catalogue of a session is that of the source tree with the values of the copies, in which the
recorded state was restored while nothing was enabled. -/
theorem exists_merged_of_load (h : load settings tree descriptor = .ok (s, missing)) :
    ∃ fresh merged n,
      Catalog.load settings s.project.cpu.fileTags tree s.project.sourceRoot = .ok (fresh, s.files)
        ∧ Project.mergeGenerated tree (settings.configDirIn s.project.directory) fresh
          = (.ok n, merged)
        ∧ s.catalog = (s.project.applyTo merged).2 ∧ merged.Idle ∧ merged.IsBuilt
        ∧ s.catalog.declared = merged.declared := by
  obtain ⟨fresh, merged, n, -, hscan, hmerge, happly, -, -⟩ := load_eq_ok_iff.1 h
  obtain ⟨modules, headers, lists, hfresh⟩ := Catalog.exists_build_of_load hscan
  have honly := Project.onlyValues_mergeGenerated hmerge
  have hidle : merged.Idle := honly.idle fun name => by
    rw [hfresh]
    exact Catalog.isEnabled_build ..
  have hbuilt : merged.IsBuilt := by
    refine (Catalog.isBuilt_build s.project.sourceRoot modules headers lists).congr ?_
    rw [honly.declared, hfresh]
  have hcatalog : s.catalog = (s.project.applyTo merged).2 := by rw [happly]
  refine ⟨fresh, merged, n, hscan, hmerge, hcatalog, hidle, hbuilt, ?_⟩
  rw [hcatalog, (Project.sameGraph_applyTo hidle s.project).declared]
  exact (Project.onlyValues_restoreValues hidle s.project).declared

/-- The catalogue of a session that was opened is one that a catalogue can get into. -/
theorem exists_run_of_load (h : load settings tree descriptor = .ok (s, missing)) :
    ∃ modules headers lists ops,
      s.catalog = (Catalog.build s.project.sourceRoot modules headers lists).run ops := by
  obtain ⟨fresh, merged, n, hscan, hmerge, hcatalog, -⟩ := exists_merged_of_load h
  obtain ⟨modules, headers, lists, rfl⟩ := Catalog.exists_build_of_load hscan
  obtain ⟨copies, hrun⟩ := Project.exists_run_mergeHeaders tree
    (settings.configDirIn s.project.directory)
    (Catalog.build s.project.sourceRoot modules headers lists).headers.keys
    (Catalog.build s.project.sourceRoot modules headers lists)
  rw [← Project.mergeGenerated, hmerge] at hrun
  dsimp only at hrun
  refine ⟨modules, headers, lists,
    (copies.map fun e => .applyUserConfiguration e.1 e.2) ++ [.applyTo s.project], ?_⟩
  rw [hcatalog, hrun, Catalog.run, Catalog.run, List.foldl_append]
  rfl

/-- Saving a session writes its project with the state of its catalogue. -/
theorem save_eq_ok_iff {now : Instant} {tree' : FileTree} :
    s.save now tree = .ok tree'
      ↔ ∃ saved, (s.project.capture s.catalog).save now tree s.descriptor = .ok (saved, tree') := by
  unfold save
  simp only [Outcome.bind_eq_ok_iff, Outcome.mapError_eq_ok_iff, Prod.exists]
  constructor
  · rintro ⟨saved, t, hsave, h⟩
    cases h
    exact ⟨saved, hsave⟩
  · rintro ⟨saved, hsave⟩
    exact ⟨saved, tree', hsave, rfl⟩

/-- A session that was saved is opened again if its source tree and the copies of its headers are. -/
theorem exists_load_of_save {tree' : FileTree} {now : Instant} {p q : Project} {t : FileTree}
    {fresh merged : Catalog} {files : FileIndex} {n : Nat}
    (hopen : load settings tree descriptor = .ok (s, missing)) (hgrows : tree.Grows tree')
    (hp : p.version = s.project.version ∧ p.toolchain = s.project.toolchain) (hnow : now.IsShown)
    (hsave : p.save now t descriptor = .ok (q, tree'))
    (hscan : Catalog.load settings p.cpu.fileTags tree' (p.reopened descriptor).sourceRoot
      = .ok (fresh, files))
    (hmerge : Project.mergeGenerated tree'
      (settings.configDirIn (p.reopened descriptor).directory) fresh = (.ok n, merged)) :
    ∃ s' missing', load settings tree' descriptor = .ok (s', missing')
      ∧ s'.settings = settings ∧ s'.project = { p with savedAt := some now }.reopened descriptor
      ∧ s'.files = files ∧ s'.catalog = (p.applyTo merged).2 := by
  obtain ⟨-, -, -, hproject, -⟩ := load_eq_ok_iff.1 hopen
  obtain ⟨hload, -, htoolchain⟩ := Project.openFile_eq_ok_iff.1 hproject
  have hload' := Project.load_of_save (hp.1 ▸ Project.version_lt_of_load hload) hnow hsave
  have hopen' : Project.openFile tree' descriptor
      = .ok ({ p with savedAt := some now }.reopened descriptor) := by
    refine Project.openFile_eq_ok_iff.2 ⟨hload', (Catalog.load_eq_ok_iff.1 hscan).1, ?_⟩
    show p.toolchain.path = "" ∨ tree'.exists? p.toolchain.path = true
    rw [hp.2]
    exact htoolchain.imp_right hgrows.exists?
  exact ⟨⟨settings, descriptor, _, (p.applyTo merged).2, files⟩, (p.applyTo merged).1,
    load_eq_ok_iff.2 ⟨fresh, merged, n, hopen', hscan, hmerge, rfl, rfl, rfl⟩, rfl, rfl, rfl, rfl⟩

end Session

/-! ## A source tree with one module -/

def soleModuleText : String :=
  "/** $WIZ$ module_name = \"m\"; module_configuration = \"c.h\" */\n"

def soleModule : Module where
  name := "m"
  depends := []
  configuration := some "c.h"
  category := ""
  hw := []
  enabled := false
  constants := .empty
  description := ""
  supports := none
  harvard := none
  definedIn := "m.c"

/-- A descriptor beside a source tree, in which a module is bound to a header. -/
def soleTree (header descriptor : String) : FileTree where
  entries := .ofList [("/p.json", .file (.text descriptor)), ("/s", .directory),
    ("/s/c.h", .file (.text header)), ("/s/m.c", .file (.text soleModuleText))]
  workingDir := []

/-- A project of that source tree, with all enabled modules asked for. -/
def soleProject (enabled : List String) (parameters : NameMap (NameMap String))
    (savedAt : Option Instant) : Project where
  version := 2
  name := "p"
  sourceRoot := "s"
  outputDir := "o"
  cpu := {}
  enabledModules := enabled
  explicitModules := enabled
  parameters
  savedAt

theorem entry?_soleTree (header descriptor : String) {place : List String} (h : place ≠ []) :
    FileTree.entry? (soleTree header descriptor) place
      = if "/s/m.c" = FileTree.key place then some (.file (.text soleModuleText))
        else if "/s/c.h" = FileTree.key place then some (.file (.text header))
        else if "/s" = FileTree.key place then some .directory
        else if "/p.json" = FileTree.key place then some (.file (.text descriptor)) else none := by
  rw [FileTree.entry?, if_neg h]
  simp only [soleTree, NameMap.ofList, List.foldl, NameMap.get?_insert]
  rfl

/-- Relative paths of plain names lead to those names from the root. -/
theorem locate_relative {t : FileTree} (h : t.workingDir = []) {path : String} {parts : List String}
    (hpath : path ≠ "" ∧ Path.isAbsolute path = false ∧ FileTree.partsOf? path = .ok parts
      ∧ ∀ part ∈ parts, part ≠ "" ∧ part ≠ "." ∧ part ≠ ".."
        ∧ FileTree.isTooLong part = false) :
    t.locate path = .ok parts := by
  obtain ⟨hne, hrelative, hparts, hplain⟩ := hpath
  rw [FileTree.locate_of_plain t hne hparts hplain, FileTree.startOf, hrelative, h]
  rfl

theorem locate_sources {t : FileTree} (h : t.workingDir = []) :
    t.locate "s" = .ok ["s"]
      ∧ ∀ name ∈ ["c.h", "m.c"], t.locate (Path.join "s" name) = .ok ["s", name] := by
  have hnames : ∀ name ∈ ["c.h", "m.c"], Path.join "s" name ≠ ""
      ∧ Path.isAbsolute (Path.join "s" name) = false
      ∧ FileTree.partsOf? (Path.join "s" name) = .ok ["s", name]
      ∧ ∀ part ∈ ["s", name], part ≠ "" ∧ part ≠ "." ∧ part ≠ ".."
        ∧ FileTree.isTooLong part = false := by
    decide
  exact ⟨locate_relative h (by decide), fun name hname => locate_relative h (hnames name hname)⟩

/-- What that tree holds. -/
theorem find?_soleTree (header descriptor : String) :
    (soleTree header descriptor).find? "p.json" = some (.file (.text descriptor))
      ∧ (soleTree header descriptor).find? "s" = some .directory
      ∧ (soleTree header descriptor).find? (Path.join "s" "c.h") = some (.file (.text header))
      ∧ (soleTree header descriptor).find? (Path.join "s" "m.c")
        = some (.file (.text soleModuleText)) := by
  obtain ⟨hdir, hnames⟩ := locate_sources (t := soleTree header descriptor) rfl
  refine ⟨FileTree.find?_eq_some_iff.2 ⟨["p.json"], locate_relative rfl (by decide), ?_⟩,
    FileTree.find?_eq_some_iff.2 ⟨_, hdir, ?_⟩,
    FileTree.find?_eq_some_iff.2 ⟨_, hnames "c.h" (by simp), ?_⟩,
    FileTree.find?_eq_some_iff.2 ⟨_, hnames "m.c" (by simp), ?_⟩⟩
  all_goals simp [entry?_soleTree, FileTree.key]

theorem listed_soleTree (header descriptor : String) :
    (FileIndex.new "s" ({} : Settings).excluded).listed (soleTree header descriptor)
      = ["c.h", "m.c"] := by
  cbv

theorem declares_soleModule :
    Catalog.declarationsOf [] "m.c" soleModuleText
      = .ok ⟨some { name := "m", configuration := some "c.h" }, .empty⟩ := by
  cbv

theorem read_soleTree (header descriptor : String) :
    (soleTree header descriptor).read (Path.join "s" "c.h") = .ok header
      ∧ (soleTree header descriptor).read (Path.join "s" "m.c") = .ok soleModuleText := by
  obtain ⟨-, -, hheader, hmodule⟩ := find?_soleTree header descriptor
  exact ⟨FileTree.read_eq_ok_iff.2 (FileTree.find?_eq_some_iff.1 hheader),
    FileTree.read_eq_ok_iff.2 (FileTree.find?_eq_some_iff.1 hmodule)⟩

/-- The source tree is read as before once something was put elsewhere. -/
theorem Catalog.readsAlike_soleTree {header descriptor : String} {tree' : FileTree}
    (hdeclares : declarationsOf [] "c.h" header = .ok ⟨none, .empty⟩)
    (hroot : tree'.find? "s" = (soleTree header descriptor).find? "s")
    (hbelow : tree'.filesBelow "s" = (soleTree header descriptor).filesBelow "s")
    (hfound : ∀ name ∈ ["c.h", "m.c"], tree'.find? (Path.join "s" name)
      = (soleTree header descriptor).find? (Path.join "s" name)) :
    ReadsAlike {} [] (soleTree header descriptor) "s" tree' "s" := by
  refine .of_filesBelow hroot hbelow
    (fun path hpath => hfound path (by rwa [listed_soleTree] at hpath)) ?_
  rintro name ⟨path, hpath, text, d, m, htext, hd, hm, hname⟩
  rw [listed_soleTree] at hpath
  obtain ⟨hheader, hmodule⟩ := read_soleTree header descriptor
  simp only [List.mem_cons, List.not_mem_nil, or_false] at hpath
  rcases hpath with rfl | rfl
  · rw [hheader, Except.ok.injEq] at htext
    rw [← htext, hdeclares, Except.ok.injEq] at hd
    rw [← hd] at hm
    cases hm
  · rw [hmodule, Except.ok.injEq] at htext
    rw [← htext, declares_soleModule, Except.ok.injEq] at hd
    rw [← hd, Option.some.injEq] at hm
    rw [← hm, Option.some.injEq] at hname
    rw [← hname]
    exact hfound _ (by simp)

section

variable {header : String} {h : Header} {enabled : List String}
  {parameters : NameMap (NameMap String)} {savedAt : Option Instant}

theorem Catalog.load_soleTree (hparse : Header.parse "c.h" header = .ok h)
    (hdeclares : declarationsOf [] "c.h" header = .ok ⟨none, .empty⟩) (descriptor : String) :
    ∃ files, load {} [] (soleTree header descriptor) "s"
      = .ok (build "s" [soleModule] [h] [], files) := by
  obtain ⟨-, hdir, hfile, -⟩ := find?_soleTree header descriptor
  have hroot : (soleTree header descriptor).isDirectory "s" = true := by
    rw [FileTree.isDirectory, hdir, decide_eq_true_iff]
  obtain ⟨files, hfiles⟩ : ∃ files, candidates (.new "s" ({} : Settings).excluded)
      (soleTree header descriptor) ({} : Settings).included = (["c.h", "m.c"], files) :=
    ⟨_, Prod.ext (by cbv) rfl⟩
  obtain ⟨hheader, hmodule⟩ := read_soleTree header descriptor
  have hisFile : (soleTree header descriptor).isFile (Path.join "s" "c.h") = true := by
    rw [FileTree.isFile, hfile]
  have hof : moduleOf "m.c" { name := "m", configuration := some "c.h" } = soleModule := by
    cbv
  have hread : readHeader (soleTree header descriptor) "s" "c.h" = .ok (some h) := by
    rw [readHeader, if_pos hisFile, hheader]
    simp only [Except.mapError, bind, Except.bind, hparse, Functor.map, Except.map]
  have hmodules : [("c.h", ⟨none, .empty⟩),
      ("m.c", ⟨some { name := "m", configuration := some "c.h" }, .empty⟩)].filterMap
        (fun e : String × Declarations => e.2.module.map (moduleOf e.1)) = [soleModule] := by
    simp [hof]
  have hpaths : (NameSet.ofList ([soleModule].filterMap (·.configuration))).toList = ["c.h"] := by
    cbv
  refine ⟨files, load_eq_ok_iff.2 ⟨hroot, _, _, [some h], hfiles,
    .cons ⟨_, _, hheader, hdeclares, rfl⟩ (.cons ⟨_, _, hmodule, declares_soleModule, rfl⟩ .nil),
    ?_, ?_⟩⟩
  · rw [hmodules, hpaths]
    exact .cons hread .nil
  · rw [hmodules]
    rfl

theorem Project.storePaths_soleProject :
    (soleProject enabled parameters savedAt).storePaths "p.json"
      = soleProject enabled parameters savedAt := by
  have hbase : Path.parent? "p.json" = some "" := by decide
  rw [storePaths, hbase]
  rfl

theorem Project.resolvePaths_soleProject :
    (soleProject enabled parameters savedAt).resolvePaths "p.json"
      = soleProject enabled parameters savedAt := by
  have hbase : Path.parent? "p.json" = some "" := by decide
  have hsource : resolvePath "" "s" = "s" := by decide
  have houtput : resolvePath "" "o" = "o" := by decide
  rw [resolvePaths, hbase]
  show ({ soleProject enabled parameters savedAt with
    sourceRoot := resolvePath "" "s"
    outputDir := resolvePath "" "o" } : Project) = soleProject enabled parameters savedAt
  rw [hsource, houtput]
  rfl

theorem Project.reopened_soleProject :
    (soleProject enabled parameters savedAt).reopened "p.json"
      = soleProject enabled parameters savedAt := by
  rw [← resolvePaths_storePaths, storePaths_soleProject, resolvePaths_soleProject]

theorem Settings.configDirIn_soleProject :
    ({} : Settings).configDirIn (soleProject enabled parameters savedAt).directory = "o/p/cfg" := by
  show Path.join (Path.join "o" "p") "cfg" = "o/p/cfg"
  decide

/-- There are no copies of headers in that tree. -/
theorem Project.copyOf?_soleTree (header descriptor : String) :
    copyOf? (soleTree header descriptor) "o/p/cfg" "c.h" = none := by
  have hlocate : (soleTree header descriptor).locate "o/p/cfg/c.h"
      = .ok ["o", "p", "cfg", "c.h"] :=
    locate_relative rfl (by decide)
  have hentry : FileTree.entry? (soleTree header descriptor) ["o", "p", "cfg", "c.h"] = none := by
    simp [entry?_soleTree, FileTree.key]
  have hfile : (soleTree header descriptor).isFile "o/p/cfg/c.h" = false := by
    rw [FileTree.isFile, FileTree.find?, hlocate]
    dsimp only
    rw [hentry]
  have hname : Path.fileName? "c.h" = some "c.h" := by decide
  have hjoin : Path.join "o/p/cfg" "c.h" = "o/p/cfg/c.h" := by decide
  rw [copyOf?, hname, Option.bind_some, hjoin, hfile]
  rfl

theorem Session.load_soleTree (hparse : Header.parse "c.h" header = .ok h)
    (hdeclares : Catalog.declarationsOf [] "c.h" header = .ok ⟨none, .empty⟩)
    (hsaved : ∀ t ∈ savedAt, Instant.read? t.write = some t) (enabled : List String)
    (parameters : NameMap (NameMap String)) :
    let p := soleProject enabled parameters savedAt
    let c := Catalog.build "s" [soleModule] [h] []
    ∃ files, load {} (soleTree header p.write) "p.json"
      = .ok (⟨{}, "p.json", p, (p.applyTo c).2, files⟩, (p.applyTo c).1) := by
  intro p c
  obtain ⟨files, hscan⟩ := Catalog.load_soleTree hparse hdeclares p.write
  obtain ⟨hdescriptor, hdir, -⟩ := find?_soleTree header p.write
  have hread : (soleTree header p.write).read "p.json" = .ok p.write :=
    FileTree.read_eq_ok_iff.2 (FileTree.find?_eq_some_iff.1 hdescriptor)
  have hroot : (soleTree header p.write).isDirectory "s" = true := by
    rw [FileTree.isDirectory, hdir, decide_eq_true_iff]
  have hparsed : Project.parse p.write = .ok p :=
    Project.parse_write (show 2 < 0x100000000 by decide) hsaved
  have hopen : Project.openFile (soleTree header p.write) "p.json" = .ok p := by
    refine Project.openFile_eq_ok_iff.2 ⟨?_, hroot, .inl rfl⟩
    rw [Project.load, hread]
    simp only [Except.mapError, bind, Except.bind, hparsed, pure, Except.pure, p,
      Project.resolvePaths_soleProject]
  have hmerge : Project.mergeGenerated (soleTree header p.write)
      (({} : Settings).configDirIn p.directory) c = (.ok 0, c) := by
    refine Project.mergeHeaders_of_no_copy (fun path hpath => ?_) c
    have hkeys : c.headers.keys = [h.path] := rfl
    rw [hkeys, List.mem_singleton, (Header.parse_eq_ok hparse).1] at hpath
    rw [hpath, Settings.configDirIn_soleProject]
    exact Project.copyOf?_soleTree ..
  have hscan' : Catalog.load {} p.cpu.fileTags (soleTree header p.write) p.sourceRoot
      = .ok (c, files) := hscan
  clear_value p c
  exact ⟨files, load_eq_ok_iff.2 ⟨c, c, 0, hopen, hscan', hmerge, rfl, rfl, rfl⟩⟩

end

end Configurator
