import Configurator.Catalog.Loader
import Configurator.Proofs.Correspondence
import Configurator.Proofs.FileIndex
import Configurator.Proofs.FileTree
import Configurator.Proofs.Header.Parsing
import Configurator.Proofs.Outcome
import Configurator.Proofs.Path.Order
import Configurator.SourceLists

/-!
# Reading a source tree again

What is read from a source tree depends on the files below its root and on the headers that its modules
name, and on nothing else that stands on the disk (`Catalog.load_of_readsAlike`). Of the files below the
root only those matter that declare something or are sources, so that generated headers may lie there as
well. The root itself can be spelled in another way.
-/

namespace Configurator

namespace Catalog

variable {settings : Settings} {tags : List String} {tree tree' : FileTree} {sourceRoot : String}
  {c : Catalog} {files index : FileIndex} {all patterns : List String}

/-! ## Files that are read -/

/-- Finds files by one more pattern. -/
def findMore (tree : FileTree) (state : List String × FileIndex) (pattern : String) :
    List String × FileIndex :=
  (state.1 ++ (state.2.find tree pattern).1, (state.2.find tree pattern).2)

theorem candidates_eq (index : FileIndex) (tree : FileTree) (patterns : List String) :
    candidates index tree patterns
      = (Path.lastOfEach ((patterns.foldl (findMore tree) ([], index)).1.mergeSort Path.le),
        (patterns.foldl (findMore tree) ([], index)).2) :=
  rfl

theorem fst_foldl_findMore (h : index.Coherent) (found : List String) :
    (patterns.foldl (findMore tree) (found, index)).1
      = found ++ patterns.flatMap (FileIndex.matching (index.files tree).1) := by
  induction patterns generalizing found index with
  | nil => simp
  | cons pattern patterns ih =>
      obtain ⟨hfound, hfollows⟩ := h.find tree pattern
      rw [List.foldl_cons, findMore, ih hfollows.coherent, hfollows.files_fst, hfound,
        List.flatMap_cons, List.append_assoc]

/-- The files that are read are those of the listing that match a pattern. -/
theorem fst_candidates_new (root : String) (exclude patterns : List String) (tree : FileTree) :
    (candidates (.new root exclude) tree patterns).1
      = Path.lastOfEach ((patterns.flatMap
        (FileIndex.matching ((FileIndex.new root exclude).listed tree))).mergeSort Path.le) := by
  rw [candidates_eq]
  dsimp only
  rw [fst_foldl_findMore (FileIndex.coherent_new root exclude), List.nil_append]
  rfl

theorem flatMap_matching_subset (all patterns : List String) :
    patterns.flatMap (FileIndex.matching all) ⊆ all := by
  intro path hpath
  obtain ⟨pattern, -, hmatch⟩ := List.mem_flatMap.1 hpath
  exact FileIndex.matching_subset all pattern hmatch

theorem candidates_new_subset (root : String) (exclude patterns : List String) (tree : FileTree) :
    (candidates (.new root exclude) tree patterns).1 ⊆ (FileIndex.new root exclude).listed tree := by
  rw [fst_candidates_new]
  exact fun path hpath => flatMap_matching_subset _ patterns
    (List.mem_mergeSort.1 (Path.lastOfEach_subset _ hpath))

/-- Files that share their components with no others can be left out of a listing or of what is read. -/
theorem lastOfEach_matching_filter {p : String → Bool}
    (hp : ∀ a ∈ all, ∀ b ∈ all, Path.components a = Path.components b → p a = p b)
    (patterns : List String) :
    Path.lastOfEach ((patterns.flatMap (FileIndex.matching (all.filter p))).mergeSort Path.le)
      = (Path.lastOfEach ((patterns.flatMap (FileIndex.matching all)).mergeSort Path.le)).filter p := by
  have hflat : patterns.flatMap (FileIndex.matching (all.filter p))
      = (patterns.flatMap (FileIndex.matching all)).filter p := by
    rw [List.filter_flatMap]
    exact List.flatMap_congr fun pattern _ => FileIndex.matching_filter all p pattern
  have hsubset := flatMap_matching_subset all patterns
  rw [hflat, Path.lastOfEach_mergeSort_filter fun a ha b hb => hp a (hsubset ha) b (hsubset hb)]

theorem goesBy_candidates (h : index.GoesBy tree all) (patterns : List String) :
    (candidates index tree patterns).2.GoesBy tree all := by
  rw [candidates_eq]
  generalize ([] : List String) = found
  induction patterns generalizing found index with
  | nil => exact h
  | cons pattern patterns ih => exact ih (h.find pattern) _

/-! ## Trees that are read -/

/-- A source tree is read if all files that match and all headers that modules name are. -/
theorem load_eq_ok_iff :
    load settings tags tree sourceRoot = .ok (c, files)
      ↔ tree.isDirectory sourceRoot = true
        ∧ ∃ paths declared headers,
          candidates (.new sourceRoot settings.excluded) tree settings.included = (paths, files)
            ∧ List.Forall₂ (fun path e => ∃ text d, tree.read (Path.join sourceRoot path) = .ok text
              ∧ declarationsOf tags path text = .ok d ∧ e = (path, d)) paths declared
            ∧ List.Forall₂ (fun path h => readHeader tree sourceRoot path = .ok h)
              (NameSet.ofList ((declared.filterMap fun e => e.2.module.map (moduleOf e.1)).filterMap
                (·.configuration))).toList headers
            ∧ c = build sourceRoot (declared.filterMap fun e => e.2.module.map (moduleOf e.1))
              (headers.filterMap id)
              ((NameMap.ofList (declared.flatMap fun e => e.2.lists.entries)).entries.map
                fun e => ⟨e.1, e.2⟩) := by
  have hdeclared : ∀ path (e : String × Declarations),
      (do
        let text ← (tree.read (Path.join sourceRoot path)).mapError Error.io
        return (path, ← declarationsOf tags path text)) = Except.ok e
        ↔ ∃ text d, tree.read (Path.join sourceRoot path) = .ok text
          ∧ declarationsOf tags path text = .ok d ∧ e = (path, d) := by
    intro path e
    simp only [Outcome.bind_eq_ok_iff, Outcome.mapError_eq_ok_iff]
    constructor
    · rintro ⟨text, hread, d, hd, h⟩
      cases h
      exact ⟨text, d, hread, hd, rfl⟩
    · rintro ⟨text, d, hread, hd, rfl⟩
      exact ⟨text, hread, d, hd, rfl⟩
  unfold load
  cases hroot : tree.isDirectory sourceRoot with
  | false => simp [throw, throwThe, MonadExceptOf.throw, bind, Except.bind]
  | true =>
      simp only [Bool.not_true, Bool.false_eq_true, if_false, Outcome.bind_eq_ok_iff,
        Outcome.mapM_eq_ok_iff, hdeclared, true_and]
      constructor
      · rintro ⟨declared, hdecl, headers, hheaders, h⟩
        cases h
        exact ⟨_, declared, headers, rfl, hdecl, hheaders, rfl⟩
      · rintro ⟨paths, declared, headers, hpaths, hdecl, hheaders, rfl⟩
        rw [hpaths]
        exact ⟨declared, hdecl, headers, hheaders, rfl⟩

/-- The index of a source tree that was read goes by what is below the root. -/
theorem goesBy_of_load (h : load settings tags tree sourceRoot = .ok (c, files)) :
    files.GoesBy tree ((FileIndex.new sourceRoot settings.excluded).listed tree) := by
  obtain ⟨-, paths, -, -, hcandidates, -⟩ := load_eq_ok_iff.1 h
  have hindex := goesBy_candidates (FileIndex.goesBy_new sourceRoot settings.excluded tree)
    settings.included
  rwa [hcandidates] at hindex

/-- What is read from a source tree is built with nothing enabled. -/
theorem exists_build_of_load (h : load settings tags tree sourceRoot = .ok (c, files)) :
    ∃ modules headers lists, c = build sourceRoot modules headers lists := by
  obtain ⟨-, -, -, -, -, -, -, rfl⟩ := load_eq_ok_iff.1 h
  exact ⟨_, _, _, rfl⟩

theorem readHeader_eq_some {path : String} {k : Header}
    (h : readHeader tree sourceRoot path = .ok (some k)) :
    tree.isFile (Path.join sourceRoot path) = true ∧ ∃ text, Header.parse path text = .ok k := by
  unfold readHeader at h
  dsimp only at h
  split at h
  · next hfile =>
    obtain ⟨text, -, hparse⟩ := Outcome.bind_eq_ok_iff.1 h
    obtain ⟨header, hheader, hsome⟩ := Outcome.map_eq_ok_iff.1 hparse
    cases hsome
    rw [Outcome.mapError_eq_ok_iff] at hheader
    exact ⟨hfile, text, hheader⟩
  · cases h

/-- The headers of a source tree were read from it. -/
theorem readHeader_of_load (h : load settings tags tree sourceRoot = .ok (c, files)) {path : String}
    {k : Header} (hk : c.headers.get? path = some k) :
    readHeader tree sourceRoot path = .ok (some k) := by
  obtain ⟨-, -, declared, headers, -, -, hheaders, hc⟩ := load_eq_ok_iff.1 h
  have hget : (NameMap.ofList ((headers.filterMap id).map fun h => (h.path, h))).get? path = some k := by
    rwa [hc] at hk
  obtain ⟨k', hk', heq⟩ := List.mem_map.1 (NameMap.mem_of_get?_ofList hget)
  obtain ⟨rfl, rfl⟩ := Prod.mk.inj heq
  obtain ⟨read, hread, rfl⟩ := List.mem_filterMap.1 hk'
  obtain ⟨path, -, hpath⟩ := exists_of_forall₂ hheaders hread
  obtain ⟨-, text, hparse⟩ := readHeader_eq_some hpath
  rwa [(Header.parse_eq_ok hparse).1]

/-- The headers of a source tree were read from texts. -/
theorem exists_parse_of_load (h : load settings tags tree sourceRoot = .ok (c, files)) {path : String}
    {k : Header} (hk : c.headers.get? path = some k) : ∃ text, Header.parse path text = .ok k :=
  (readHeader_eq_some (readHeader_of_load h hk)).2

/-! ## Trees that are read alike -/

/-- Whether a module that is declared in a source tree names a header. -/
def Names (settings : Settings) (tags : List String) (tree : FileTree) (sourceRoot header : String) :
    Prop :=
  ∃ path ∈ (FileIndex.new sourceRoot settings.excluded).listed tree, ∃ text d m,
    tree.read (Path.join sourceRoot path) = .ok text ∧ declarationsOf tags path text = .ok d
      ∧ d.module = some m ∧ m.configuration = some header

/-- The headers that the modules declared in listed files name. -/
theorem names_of_mem_headers {paths : List String} {declared : List (String × Declarations)}
    {header : String}
    (hdeclared : List.Forall₂ (fun path e => ∃ text d,
      tree.read (Path.join sourceRoot path) = .ok text
        ∧ declarationsOf tags path text = .ok d ∧ e = (path, d)) paths declared)
    (hlisted : ∀ path ∈ paths, path ∈ (FileIndex.new sourceRoot settings.excluded).listed tree)
    (h : header ∈ (NameSet.ofList ((declared.filterMap fun e => e.2.module.map
      (moduleOf e.1)).filterMap (·.configuration))).toList) :
    Names settings tags tree sourceRoot header := by
  obtain ⟨m, hm, hnames⟩ := List.mem_filterMap.1 (NameSet.mem_ofList.1 (NameSet.mem_toList.1 h))
  obtain ⟨e, he, hmodule⟩ := List.mem_filterMap.1 hm
  obtain ⟨definition, hdefinition, rfl⟩ := Option.map_eq_some_iff.1 hmodule
  obtain ⟨path, hpath, text, d, htext, hd, rfl⟩ := exists_of_forall₂ hdeclared he
  exact ⟨path, hlisted path hpath, text, d, definition, htext, hd, hdefinition, hnames⟩

/-- The catalogue as it is under another source root. -/
def atRoot (c : Catalog) (sourceRoot : String) : Catalog :=
  { c with sourceRoot }

variable {sourceRoot' : String}

theorem sourceRoot_of_load (h : load settings tags tree sourceRoot = .ok (c, files)) :
    c.sourceRoot = sourceRoot := by
  obtain ⟨-, -, -, -, -, -, -, rfl⟩ := load_eq_ok_iff.1 h
  rfl

/-- Whether a file below a source root adds nothing to some listed ones: it can be read, declares nothing,
is no source by its name, and has a path of its own. -/
structure AddsNothing (tags : List String) (tree : FileTree) (sourceRoot : String) (all : List String)
    (path : String) : Prop where
  idle : ∃ text, tree.read (Path.join sourceRoot path) = .ok text
    ∧ declarationsOf tags path text = .ok ⟨none, .empty⟩
  language : Language.ofName? (FileIndex.nameOf path) = none
  own : ∀ other ∈ all, Path.components other ≠ Path.components path

/-- Whether a source tree has the same files in two trees, but for files in the second one that add
nothing, and the headers that its modules name are the same. -/
structure ReadsAlike (settings : Settings) (tags : List String) (tree : FileTree) (sourceRoot : String)
    (tree' : FileTree) (sourceRoot' : String) : Prop where
  root : tree'.find? sourceRoot' = tree.find? sourceRoot
  listed : ((FileIndex.new sourceRoot' settings.excluded).listed tree').filter
      (· ∈ (FileIndex.new sourceRoot settings.excluded).listed tree)
    = (FileIndex.new sourceRoot settings.excluded).listed tree
  added : ∀ path ∈ (FileIndex.new sourceRoot' settings.excluded).listed tree',
    path ∉ (FileIndex.new sourceRoot settings.excluded).listed tree →
      AddsNothing tags tree' sourceRoot' ((FileIndex.new sourceRoot settings.excluded).listed tree) path
  sources : ∀ path ∈ (FileIndex.new sourceRoot settings.excluded).listed tree,
    tree'.find? (Path.join sourceRoot' path) = tree.find? (Path.join sourceRoot path)
  headers : ∀ header, Names settings tags tree sourceRoot header →
    tree'.find? (Path.join sourceRoot' header) = tree.find? (Path.join sourceRoot header)

/-- With the same files below the root nothing is added. -/
theorem ReadsAlike.of_filesBelow (hroot : tree'.find? sourceRoot' = tree.find? sourceRoot)
    (hbelow : tree'.filesBelow sourceRoot' = tree.filesBelow sourceRoot)
    (hsources : ∀ path ∈ (FileIndex.new sourceRoot settings.excluded).listed tree,
      tree'.find? (Path.join sourceRoot' path) = tree.find? (Path.join sourceRoot path))
    (hheaders : ∀ header, Names settings tags tree sourceRoot header →
      tree'.find? (Path.join sourceRoot' header) = tree.find? (Path.join sourceRoot header)) :
    ReadsAlike settings tags tree sourceRoot tree' sourceRoot' := by
  have hlisted : (FileIndex.new sourceRoot' settings.excluded).listed tree'
      = (FileIndex.new sourceRoot settings.excluded).listed tree :=
    FileIndex.listed_congr hbelow rfl
  refine ⟨hroot, ?_, fun path hpath hnot => absurd (hlisted ▸ hpath) hnot, hsources, hheaders⟩
  rw [hlisted]
  exact List.filter_eq_self.2 fun path hpath => decide_eq_true hpath

/-- The files that are read are the same but for those that add nothing. -/
theorem ReadsAlike.candidates (h : ReadsAlike settings tags tree sourceRoot tree' sourceRoot') :
    (candidates (.new sourceRoot settings.excluded) tree settings.included).1
      = (candidates (.new sourceRoot' settings.excluded) tree' settings.included).1.filter
        (· ∈ (FileIndex.new sourceRoot settings.excluded).listed tree) := by
  rw [fst_candidates_new, fst_candidates_new, ← lastOfEach_matching_filter ?_, h.listed]
  intro a ha b hb heq
  by_cases ha' : a ∈ (FileIndex.new sourceRoot settings.excluded).listed tree <;>
    by_cases hb' : b ∈ (FileIndex.new sourceRoot settings.excluded).listed tree
  · rw [decide_eq_true ha', decide_eq_true hb']
  · exact absurd heq ((h.added b hb hb').own a ha')
  · exact absurd heq.symm ((h.added a ha ha').own b hb')
  · rw [decide_eq_false ha', decide_eq_false hb']

/-- The sources with a name are the same. -/
theorem ReadsAlike.filter_nameOf (h : ReadsAlike settings tags tree sourceRoot tree' sourceRoot')
    {name : String} (hname : Language.ofName? name ≠ none) :
    ((FileIndex.new sourceRoot' settings.excluded).listed tree').filter (FileIndex.nameOf · = name)
      = ((FileIndex.new sourceRoot settings.excluded).listed tree).filter
        (FileIndex.nameOf · = name) := by
  conv_rhs => rw [← h.listed]
  rw [List.filter_filter]
  refine List.filter_congr fun path hpath => ?_
  by_cases hnamed : FileIndex.nameOf path = name
  · have hold : path ∈ (FileIndex.new sourceRoot settings.excluded).listed tree := by
      by_contra hnew
      exact hname (hnamed ▸ (h.added path hpath hnew).language)
    simp [hnamed, hold]
  · simp [hnamed]

theorem readHeader_congr {path : String} {h : Option Header}
    (hfound : tree'.find? (Path.join sourceRoot' path) = tree.find? (Path.join sourceRoot path))
    (hread : readHeader tree sourceRoot path = .ok h) : readHeader tree' sourceRoot' path = .ok h := by
  have hfile : tree'.isFile (Path.join sourceRoot' path) = tree.isFile (Path.join sourceRoot path) := by
    rw [FileTree.isFile, FileTree.isFile, hfound]
  unfold readHeader at hread ⊢
  dsimp only at hread ⊢
  rw [hfile]
  split
  · next hthere =>
    rw [if_pos hthere] at hread
    obtain ⟨text, htext, hparse⟩ := Outcome.bind_eq_ok_iff.1 hread
    refine Outcome.bind_eq_ok_iff.2 ⟨text, ?_, hparse⟩
    rw [Outcome.mapError_eq_ok_iff] at htext ⊢
    exact (FileTree.read_congr hfound).2 htext
  · next hmissing =>
    rwa [if_neg hmissing] at hread

/-- What the files of a tree declare, with some more files that declare nothing, has the same modules and
the same lists in it. -/
theorem exists_declared {R S : String → String × Declarations → Prop} {p : String → Bool}
    {paths : List String} {declared : List (String × Declarations)}
    (h : List.Forall₂ R (paths.filter p) declared)
    (hkeep : ∀ path ∈ paths, p path = true → ∀ e, R path e → S path e)
    (hidle : ∀ path ∈ paths, p path = false → S path (path, ⟨none, .empty⟩)) :
    ∃ declared', List.Forall₂ S paths declared'
      ∧ (declared'.filterMap fun e => e.2.module.map (moduleOf e.1))
        = (declared.filterMap fun e => e.2.module.map (moduleOf e.1))
      ∧ (declared'.flatMap fun e => e.2.lists.entries)
        = (declared.flatMap fun e => e.2.lists.entries) := by
  induction paths generalizing declared with
  | nil =>
      cases h
      exact ⟨[], .nil, rfl, rfl⟩
  | cons path paths ih =>
      have hkeep' := fun other hother => hkeep other (List.mem_cons_of_mem _ hother)
      have hidle' := fun other hother => hidle other (List.mem_cons_of_mem _ hother)
      cases hp : p path with
      | true =>
          rw [List.filter_cons_of_pos hp] at h
          obtain ⟨e, rest, he, hrest, rfl⟩ := List.forall₂_cons_left_iff.1 h
          obtain ⟨declared', hdeclared, hmodules, hlists⟩ := ih hrest hkeep' hidle'
          refine ⟨e :: declared', .cons (hkeep path List.mem_cons_self hp e he) hdeclared, ?_, ?_⟩
          · rw [List.filterMap_cons, List.filterMap_cons, hmodules]
          · rw [List.flatMap_cons, List.flatMap_cons, hlists]
      | false =>
          rw [List.filter_cons_of_neg (by simp [hp])] at h
          obtain ⟨declared', hdeclared, hmodules, hlists⟩ := ih h hkeep' hidle'
          exact ⟨_, .cons (hidle path List.mem_cons_self hp) hdeclared, hmodules, hlists⟩

/-- A source tree that is alike in another tree is read in the same way there, and the same sources are
found in it afterwards. -/
theorem load_of_readsAlike (h : load settings tags tree sourceRoot = .ok (c, files))
    (halike : ReadsAlike settings tags tree sourceRoot tree' sourceRoot') :
    ∃ files', load settings tags tree' sourceRoot' = .ok (c.atRoot sourceRoot', files')
      ∧ ∀ name, Language.ofName? name ≠ none →
        (files'.findNamed tree' name).1 = (files.findNamed tree name).1 := by
  obtain ⟨hroot, paths, declared, headers, hpaths, hdeclared, hheaders, hc⟩ := load_eq_ok_iff.1 h
  have hfilter := halike.candidates
  rw [hpaths] at hfilter
  subst hfilter
  obtain ⟨declared', hdeclared', hmodules, hlists⟩ := exists_declared
    (S := fun path e => ∃ text d, tree'.read (Path.join sourceRoot' path) = .ok text
      ∧ declarationsOf tags path text = .ok d ∧ e = (path, d)) hdeclared
    (fun path _ hold e ⟨text, d, htext, hd, he⟩ =>
      ⟨text, d, (FileTree.read_congr (halike.sources path (of_decide_eq_true hold))).2 htext, hd, he⟩)
    (fun path hpath hnew => by
      obtain ⟨text, htext, hd⟩ := (halike.added path (candidates_new_subset _ _ _ _ hpath)
        (of_decide_eq_false hnew)).idle
      exact ⟨text, _, htext, hd, rfl⟩)
  obtain ⟨files', hload⟩ :
      ∃ files', load settings tags tree' sourceRoot' = .ok (c.atRoot sourceRoot', files') := by
    refine ⟨_, load_eq_ok_iff.2 ⟨by rwa [FileTree.isDirectory, halike.root], _, declared', headers, rfl,
      hdeclared', ?_, ?_⟩⟩
    · rw [hmodules]
      refine (mem_of_forall₂ hheaders).imp ?_
      rintro header read ⟨hheader, -, hread⟩
      refine readHeader_congr (halike.headers header (names_of_mem_headers hdeclared ?_ hheader)) hread
      exact fun path hpath => of_decide_eq_true (List.mem_filter.1 hpath).2
    · rw [hc, hmodules, hlists]
      rfl
  refine ⟨files', hload, fun name hname => ?_⟩
  rw [((goesBy_of_load hload).findNamed name).1, ((goesBy_of_load h).findNamed name).1,
    halike.filter_nameOf hname]

end Catalog

end Configurator
