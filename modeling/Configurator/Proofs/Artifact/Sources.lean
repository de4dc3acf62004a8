import Configurator.Proofs.Catalog.Enabled
import Configurator.Proofs.Catalog.Loading
import Configurator.Proofs.FileIndex
import Configurator.Proofs.Path
import Configurator.SourceLists

/-!
# Which sources a build compiles

Files are looked for by name in a listing of the source tree that stays what it is (`GoesBy`). A module
brings in the files that its own name stands for and those that the bare files among its dependencies
stand for (`BringsIn`). How its C files are compiled is a matter of the module and not of the file, so
that a file which two modules bring in may be compiled for both memories; what the lists hold of each
kind is said in `SourceLists.mem_ofCatalog`.
-/

namespace Configurator

/-! ## Files that names stand for -/

namespace Cpu

theorem fileTags_eq (cpu : Cpu) : cpu.fileTags
    = ((cpu.tags ++ [cpu.name, cpu.toolchain]).filter (· ≠ "")).foldl Catalog.addNew [] := by
  rw [fileTags, List.foldl_filter]
  refine congrArg (List.foldl · [] _) (funext fun tags => funext fun tag => ?_)
  by_cases htag : tag = "" <;> simp [htag, Catalog.addNew]

/-- What marks a variant for a CPU is one of its tags, its name or its toolchain. -/
theorem mem_fileTags {cpu : Cpu} {tag : String} :
    tag ∈ cpu.fileTags ↔ (tag ∈ cpu.tags ∨ tag = cpu.name ∨ tag = cpu.toolchain) ∧ tag ≠ "" := by
  rw [fileTags_eq, Catalog.mem_foldl_addNew, List.mem_filter]
  simp

theorem nodup_fileTags (cpu : Cpu) : cpu.fileTags.Nodup := by
  obtain ⟨added, hadded, hnodup, -⟩ := Catalog.exists_foldl_addNew []
    ((cpu.tags ++ [cpu.name, cpu.toolchain]).filter (· ≠ ""))
  rwa [fileTags_eq, hadded, List.nil_append]

end Cpu

namespace Text

/-- What stands behind the last occurrence of a character, or all if there is none. -/
def behindLast (d : Char) (cs : List Char) : List Char :=
  (cs.reverse.takeWhile (· ≠ d)).reverse

theorem not_mem_behindLast (d : Char) (cs : List Char) : d ∉ behindLast d cs := by
  intro hmem
  simpa using List.mem_takeWhile_imp (List.mem_reverse.1 hmem)

theorem behindLast_cases (d : Char) (cs : List Char) :
    behindLast d cs = cs ∨ ∃ front, cs = front ++ d :: behindLast d cs := by
  have hreverse := List.takeWhile_append_dropWhile (p := (· ≠ d)) (l := cs.reverse)
  have hcs := congrArg List.reverse hreverse
  rw [List.reverse_append, List.reverse_reverse, ← behindLast] at hcs
  have hhead := List.head?_dropWhile_not (· ≠ d) cs.reverse
  cases hrest : cs.reverse.dropWhile (· ≠ d) with
  | nil =>
      rw [hrest] at hcs
      exact .inl hcs
  | cons e rest =>
      rw [hrest] at hcs hhead
      obtain rfl : e = d := by simpa using hhead
      rw [List.reverse_cons, List.append_assoc] at hcs
      exact .inr ⟨rest.reverse, hcs.symm⟩

theorem behindLast_append {d : Char} {ending : List Char} (h : d ∉ ending) (front : List Char) :
    behindLast d (front ++ ending) = behindLast d front ++ ending := by
  have hall : ∀ c ∈ ending.reverse, decide (c ≠ d) = true := by
    intro c hc
    simpa using fun heq : c = d => h (heq ▸ List.mem_reverse.1 hc)
  rw [behindLast, List.reverse_append, List.takeWhile_append_of_pos hall, List.reverse_append,
    List.reverse_reverse, behindLast]

theorem behindLast_append_cons {d : Char} {ending : List Char} (h : d ∉ ending)
    (front : List Char) : behindLast d (front ++ d :: ending) = ending := by
  rw [List.append_cons, behindLast_append h, behindLast, List.reverse_concat,
    List.takeWhile_cons_of_neg (by simp), List.reverse_nil, List.nil_append]

theorem exists_splitOn_behindLast (d : Char) (cs : List Char) :
    ∃ front, cs.splitOn d = front ++ [behindLast d cs] := by
  have hnot := not_mem_behindLast d cs
  rcases behindLast_cases d cs with hall | ⟨front, hfront⟩
  · rw [hall] at hnot ⊢
    exact ⟨[], List.splitOn_eq_singleton hnot⟩
  · refine ⟨front.splitOn d, ?_⟩
    rw [← List.splitOn_eq_singleton hnot, ← List.splitOn_append_cons_self, ← hfront]

end Text

namespace Language

open Text (behindLast behindLast_append_cons behindLast_cases)

theorem ofExtension?_eq_c_iff {extension : String} :
    ofExtension? extension = some .c ↔ extension = "c" := by
  unfold ofExtension?
  split
  · simp [*]
  · split
    · simp_all
    · split
      · simp_all
      · split <;> simp_all

theorem ofName?_eq_c {name : String} :
    ofName? name = some .c ↔ behindLast '.' name.toList = ['c'] := by
  have heq : ∀ cs, String.ofList cs = "c" ↔ cs = ['c'] := fun cs => by
    rw [← String.toList_inj, String.toList_ofList]
    rfl
  exact ofExtension?_eq_c_iff.trans (heq _)

/-- A file is in C if its name ends so. The letter alone tells nothing. -/
theorem ofName?_eq_c_iff {name : String} (h : name ≠ "c") :
    ofName? name = some .c ↔ ['.', 'c'] <:+ name.toList := by
  rw [ofName?_eq_c]
  constructor
  · intro hbehind
    rcases behindLast_cases '.' name.toList with hall | ⟨front, hfront⟩
    · rw [hbehind] at hall
      exact absurd (String.toList_inj.1 hall.symm) h
    · exact ⟨front, by rw [hfront, hbehind]⟩
  · rintro ⟨front, hfront⟩
    rw [← hfront]
    exact behindLast_append_cons (by decide) front

end Language

namespace SourceLists

open FileIndex (nameOf)

variable {index : FileIndex} {tree : FileTree} {all : List String} {tags names : List String}
  {name file path start : String} {kind : SourceKind} {forC : List SourceKind} {p : Project}
  {c : Catalog} {m : Module}

/-- Whether a name stands for a C file: a name with an extension for itself, and another one for the
files that have it as their stem, on its own or with a tag. -/
def StandsFor (tags : List String) (name file : String) : Prop :=
  ['.', 'c'] <:+ file.toList ∧
    if (Path.extension? name).isSome then file = name
    else file = name ++ ".c" ∨ ∃ tag ∈ tags, file = name ++ "_" ++ tag ++ ".c"

/-- With which of the extensions a file is looked for is told by its language. -/
theorem language_append_iff {extension : String} (h : extension ∈ Language.extensions)
    (stem : String) : Language.ofName? (stem ++ "." ++ extension) = some .c ↔ extension = "c" := by
  have hdot : ∀ extension ∈ Language.extensions, '.' ∉ extension.toList := by decide
  have hlist : (stem ++ "." ++ extension).toList = stem.toList ++ '.' :: extension.toList := by simp
  rw [Language.ofName?_eq_c, hlist, Text.behindLast_append_cons (hdot extension h),
    ← String.toList_inj]
  rfl

theorem mem_candidates_iff :
    file ∈ candidates tags name ∧ Language.ofName? file = some .c ↔ StandsFor tags name file := by
  unfold candidates StandsFor
  split
  · next hextension =>
    rw [List.mem_singleton, and_comm]
    refine and_congr_left fun heq => Language.ofName?_eq_c_iff ?_
    rintro rfl
    rw [← heq] at hextension
    exact absurd hextension (by decide)
  · have hstem : ∀ stem : String, stem ++ "." ++ "c" = stem ++ ".c" := fun stem => by
      rw [String.append_assoc]
      rfl
    constructor
    · rintro ⟨hmem, hlanguage⟩
      obtain ⟨extension, hextension, hfile⟩ := List.mem_flatMap.1 hmem
      obtain ⟨stem, hcases, rfl⟩ : ∃ stem, (stem = name ∨ ∃ tag ∈ tags, stem = name ++ "_" ++ tag)
          ∧ file = stem ++ "." ++ extension := by
        rcases List.mem_cons.1 hfile with rfl | hfile
        · exact ⟨name, .inl rfl, rfl⟩
        · obtain ⟨tag, htag, rfl⟩ := List.mem_map.1 hfile
          exact ⟨_, .inr ⟨tag, htag, rfl⟩, rfl⟩
      obtain rfl := (language_append_iff hextension stem).1 hlanguage
      refine ⟨⟨stem.toList, by simp⟩, ?_⟩
      rw [hstem]
      rcases hcases with rfl | ⟨tag, htag, rfl⟩
      · exact .inl rfl
      · exact .inr ⟨tag, htag, rfl⟩
    · rintro ⟨-, hfile⟩
      have hc : "c" ∈ Language.extensions := by decide
      rcases hfile with rfl | ⟨tag, htag, rfl⟩
      · rw [← hstem]
        exact ⟨List.mem_flatMap.2 ⟨"c", hc, List.mem_cons_self⟩, (language_append_iff hc _).2 rfl⟩
      · rw [← hstem]
        refine ⟨List.mem_flatMap.2 ⟨"c", hc, List.mem_cons_of_mem _ ?_⟩,
          (language_append_iff hc _).2 rfl⟩
        exact List.mem_map.2 ⟨tag, htag, rfl⟩

/-- A bare name stands for the C file with that stem and for its variants for the CPU. -/
theorem standsFor_fileTags_iff {cpu : Cpu} (h : Path.extension? name = none) :
    StandsFor cpu.fileTags name file ↔ file = name ++ ".c"
      ∨ ∃ tag, (tag ∈ cpu.tags ∨ tag = cpu.name ∨ tag = cpu.toolchain) ∧ tag ≠ ""
        ∧ file = name ++ "_" ++ tag ++ ".c" := by
  have hending : ∀ stem : String, ['.', 'c'] <:+ (stem ++ ".c").toList :=
    fun stem => ⟨stem.toList, by simp⟩
  rw [StandsFor, if_neg (by simp [h])]
  simp only [Cpu.mem_fileTags, and_assoc]
  refine and_iff_right_of_imp ?_
  rintro (rfl | ⟨tag, -, -, rfl⟩)
  · exact hending name
  · exact hending _

/-! ## Sources of a build -/

/-- The listed files that are found for some names. -/
theorem mem_findNamed (h : index.GoesBy tree all) (names : List String) :
    (∀ language file, (language, file) ∈ (findNamed tree index names).1
        ↔ file ∈ all ∧ nameOf file ∈ names ∧ Language.ofName? (nameOf file) = some language)
      ∧ (findNamed tree index names).2.GoesBy tree all := by
  induction names generalizing index with
  | nil => exact ⟨by simp [findNamed], h⟩
  | cons name names ih =>
      obtain ⟨hpaths, hafter⟩ := h.findNamed name
      obtain ⟨hmem, hlater⟩ := ih hafter
      unfold findNamed
      dsimp only
      rw [hpaths]
      cases hlanguage : Language.ofName? name with
      | none =>
          refine ⟨fun language file => ?_, hlater⟩
          dsimp only
          rw [hmem, List.mem_cons]
          refine and_congr_right fun _ => and_congr_left fun hfile => ?_
          rw [or_iff_right]
          rintro heq
          rw [heq, hlanguage] at hfile
          cases hfile
      | some other =>
          refine ⟨fun language file => ?_, hlater⟩
          dsimp only
          rw [List.mem_append, hmem, List.mem_cons, List.mem_map]
          constructor
          · rintro (⟨found, hfound, heq⟩ | ⟨hall, hname, hfile⟩)
            · obtain ⟨rfl, rfl⟩ := Prod.mk.inj heq
              obtain ⟨hall, hname⟩ := List.mem_filter.1 hfound
              have hname : nameOf found = name := by simpa using hname
              exact ⟨hall, .inl hname, hname ▸ hlanguage⟩
            · exact ⟨hall, .inr hname, hfile⟩
          · rintro ⟨hall, hname | hname, hfile⟩
            · rw [hname, hlanguage, Option.some.injEq] at hfile
              exact .inl ⟨file, List.mem_filter.2 ⟨hall, by simpa using hname⟩, by rw [hfile]⟩
            · exact .inr ⟨hall, hname, hfile⟩

/-- Only C files are compiled for one memory or the other. -/
theorem mem_ofLanguage_iff (hkind : kind = .c ∨ kind = .programC) (language : Language) :
    kind ∈ SourceKind.ofLanguage forC language ↔ language = .c ∧ kind ∈ forC := by
  rcases hkind with rfl | rfl <;> cases language <;> simp [SourceKind.ofLanguage]

/-- The C files that some names stand for are found, and compiled as they are to be. -/
theorem mem_findSources (h : index.GoesBy tree all) (hkind : kind = .c ∨ kind = .programC)
    (tags : List String) (start : String) (forC : List SourceKind) (names : List String)
    (path : String) :
    ((kind, path) ∈ (findSources tree tags start forC index names).1
        ↔ kind ∈ forC ∧ ∃ name ∈ names, ∃ file ∈ all, StandsFor tags name (nameOf file)
          ∧ path = start ++ "/" ++ file)
      ∧ (findSources tree tags start forC index names).2.GoesBy tree all := by
  obtain ⟨hmem, hlater⟩ := mem_findNamed h (names.flatMap (candidates tags))
  refine ⟨?_, hlater⟩
  unfold findSources
  dsimp only
  rw [List.mem_flatMap]
  constructor
  · rintro ⟨⟨language, file⟩, hfound, hpath⟩
    obtain ⟨other, hother, heq⟩ := List.mem_map.1 hpath
    obtain ⟨rfl, rfl⟩ := Prod.mk.inj heq
    obtain ⟨rfl, hfor⟩ := (mem_ofLanguage_iff hkind language).1 hother
    obtain ⟨hfile, hname, hlanguage⟩ := (hmem _ _).1 hfound
    obtain ⟨name, hname, hcandidate⟩ := List.mem_flatMap.1 hname
    exact ⟨hfor, name, hname, file, hfile, mem_candidates_iff.1 ⟨hcandidate, hlanguage⟩, rfl⟩
  · rintro ⟨hfor, name, hname, file, hfile, hstands, rfl⟩
    obtain ⟨hcandidate, hlanguage⟩ := mem_candidates_iff.2 hstands
    refine ⟨(.c, file), (hmem _ _).2 ⟨hfile, ?_, hlanguage⟩, ?_⟩
    · exact List.mem_flatMap.2 ⟨name, hname, hcandidate⟩
    · exact List.mem_map.2 ⟨kind, (mem_ofLanguage_iff hkind .c).2 ⟨rfl, hfor⟩, rfl⟩

/-- Whether a module brings in a C file, as the path it is compiled under: its own name stands for the
file, or one that it depends on now and that is no module. -/
def BringsIn (all : List String) (p : Project) (c : Catalog) (m : Module) (path : String) : Prop :=
  ∃ name, (name = m.name ∨ name ∈ c.effectiveDeps m.name ∧ c.isModule name = false)
    ∧ ∃ file ∈ all, StandsFor p.cpu.fileTags name (nameOf file)
      ∧ path = startOf c.sourceRoot ++ "/" ++ file

/-- Whether a path is that of the copy of one of a module's hardware sources. -/
def IsHardwareCopy (p : Project) (m : Module) (path : String) : Prop :=
  ∃ file ∈ m.hw, ['.', 'c'] <:+ file.toList ∧ path = p.name ++ "/hw/" ++ nameOf file

/-- The file name of a C file is what stands behind its last slash. -/
theorem fileName?_of_isSuffix {file : String} (h : ['.', 'c'] <:+ file.toList) :
    Path.fileName? file = some (nameOf file) := by
  obtain ⟨front, hsplit⟩ := Text.exists_splitOn_behindLast '/' file.toList
  have hpart : Path.componentOf? (Text.behindLast '/' file.toList)
      = some (.name (Text.behindLast '/' file.toList)) := by
    obtain ⟨stem, hstem⟩ := h
    rw [← hstem, Text.behindLast_append (by decide)]
    have hne : ∀ part : List Char, part.getLast? ≠ some 'c' →
        Text.behindLast '/' stem ++ ['.', 'c'] ≠ part := by
      rintro part hpart rfl
      simp at hpart
    rw [Path.componentOf?, if_neg (not_or.2 ⟨hne _ (by decide), hne _ (by decide)⟩),
      if_neg (hne _ (by decide))]
  exact Path.fileName?_of_splitOn hsplit hpart

theorem mem_hardwareSources : (kind, path) ∈ hardwareSources p.name m
    ↔ kind = .c ∧ IsHardwareCopy p m path := by
  unfold hardwareSources IsHardwareCopy
  rw [List.mem_map]
  constructor
  · rintro ⟨file, hfile, heq⟩
    obtain ⟨rfl, rfl⟩ := Prod.mk.inj heq
    obtain ⟨hfile, hending⟩ := List.mem_filter.1 hfile
    have hending := List.isSuffixOf_iff_suffix.1 hending
    exact ⟨rfl, file, hfile, hending, by rw [fileName?_of_isSuffix hending, Option.getD_some]⟩
  · rintro ⟨rfl, file, hfile, hending, rfl⟩
    refine ⟨file, List.mem_filter.2 ⟨hfile, List.isSuffixOf_iff_suffix.2 hending⟩, ?_⟩
    rw [fileName?_of_isSuffix hending, Option.getD_some]

theorem mem_ofModule (h : index.GoesBy tree all) (hkind : kind = .c ∨ kind = .programC)
    (p : Project) (c : Catalog) (m : Module) (path : String) :
    ((kind, path) ∈ (ofModule tree p c index m).1
        ↔ kind ∈ SourceKind.ofMode p.cpu.isHarvard m.harvard ∧ BringsIn all p c m path
          ∨ kind = .c ∧ IsHardwareCopy p m path)
      ∧ (ofModule tree p c index m).2.GoesBy tree all := by
  obtain ⟨hmem, hlater⟩ := mem_findSources h hkind p.cpu.fileTags (startOf c.sourceRoot)
    (SourceKind.ofMode p.cpu.isHarvard m.harvard)
    (m.name :: (c.effectiveDeps m.name).filter (!c.isModule ·)) path
  refine ⟨?_, hlater⟩
  unfold ofModule
  dsimp only
  rw [List.mem_append, hmem, mem_hardwareSources]
  simp only [BringsIn, List.mem_cons, List.mem_filter, Bool.not_eq_true']

theorem mem_ofModules (h : index.GoesBy tree all) (hkind : kind = .c ∨ kind = .programC)
    (ms : List Module) :
    (kind, path) ∈ (ofModules tree p c index ms).1
      ↔ ∃ m ∈ ms, kind ∈ SourceKind.ofMode p.cpu.isHarvard m.harvard ∧ BringsIn all p c m path
        ∨ kind = .c ∧ IsHardwareCopy p m path := by
  induction ms generalizing index with
  | nil => simp [ofModules]
  | cons m ms ih =>
      obtain ⟨hmem, hlater⟩ := mem_ofModule h hkind p c m path
      unfold ofModules
      dsimp only
      rw [List.mem_append, hmem, ih hlater, List.exists_mem_cons_iff]

theorem c_mem_ofMode_iff {harvard : Bool} {mode : Option HarvardMode} :
    .c ∈ SourceKind.ofMode harvard mode ↔ (harvard = true → mode ≠ some .program) := by
  cases harvard <;> rcases mode with _ | _ | _ | _ <;> decide

theorem programC_mem_ofMode_iff {harvard : Bool} {mode : Option HarvardMode} :
    .programC ∈ SourceKind.ofMode harvard mode ↔ harvard = true ∧ mode ≠ some .data := by
  cases harvard <;> rcases mode with _ | _ | _ | _ <;> decide

theorem c_mem_ofCpu_iff {cpu : Cpu} :
    (.c, path) ∈ ofCpu cpu start ↔ path ∈ cpu.sources.c.map (start ++ "/" ++ ·)
      ∨ cpu.isHarvard = false ∧ path ∈ cpu.sources.programC.map (start ++ "/" ++ ·) := by
  unfold ofCpu
  cases cpu.isHarvard <;> simp

theorem programC_mem_ofCpu_iff {cpu : Cpu} :
    (.programC, path) ∈ ofCpu cpu start
      ↔ cpu.isHarvard = true ∧ path ∈ cpu.sources.programC.map (start ++ "/" ++ ·) := by
  unfold ofCpu
  cases cpu.isHarvard <;> simp

theorem mem_get_ofCatalog (h : index.GoesBy tree all) (hkind : kind = .c ∨ kind = .programC) :
    path ∈ (ofCatalog tree p c index).1.get kind
      ↔ (∃ m ∈ c.enabledModules, kind ∈ SourceKind.ofMode p.cpu.isHarvard m.harvard
            ∧ BringsIn all p c m path
          ∨ kind = .c ∧ IsHardwareCopy p m path)
        ∨ (kind, path) ∈ ofCpu p.cpu (startOf c.sourceRoot) := by
  unfold ofCatalog
  dsimp only
  rw [mem_get_ofList, List.mem_append, mem_ofModules h hkind]

/-- The C sources of a build. A CPU with separate memories compiles for program memory what the modules
bring in that are not for data alone, together with the CPU's sources for it; the other list has what the
modules bring in that are not for programs alone, the hardware sources and the CPU's. Merged, the list
has all that any enabled module brings in. -/
theorem mem_ofCatalog (h : index.GoesBy tree all) (p : Project) (c : Catalog) (path : String) :
    (path ∈ (ofCatalog tree p c index).1.programC ↔
        p.cpu.isHarvard = true
          ∧ ((∃ m ∈ c.enabledModules, m.harvard ≠ some .data ∧ BringsIn all p c m path)
            ∨ path ∈ p.cpu.sources.programC.map (startOf c.sourceRoot ++ "/" ++ ·)))
      ∧ (path ∈ (ofCatalog tree p c index).1.c ↔
        (∃ m ∈ c.enabledModules, (p.cpu.isHarvard = true → m.harvard ≠ some .program)
            ∧ BringsIn all p c m path)
          ∨ (∃ m ∈ c.enabledModules, IsHardwareCopy p m path)
          ∨ path ∈ p.cpu.sources.c.map (startOf c.sourceRoot ++ "/" ++ ·)
          ∨ p.cpu.isHarvard = false
            ∧ path ∈ p.cpu.sources.programC.map (startOf c.sourceRoot ++ "/" ++ ·))
      ∧ (path ∈ (ofCatalog tree p c index).1.mergeProgramMemory.c ↔
        (∃ m ∈ c.enabledModules, BringsIn all p c m path ∨ IsHardwareCopy p m path)
          ∨ path ∈ (p.cpu.sources.c ++ p.cpu.sources.programC).map
            (startOf c.sourceRoot ++ "/" ++ ·)) := by
  have hprogram : path ∈ (ofCatalog tree p c index).1.programC ↔ _ :=
    mem_get_ofCatalog h (.inr rfl)
  have hc : path ∈ (ofCatalog tree p c index).1.c ↔ _ := mem_get_ofCatalog h (.inl rfl)
  simp only [programC_mem_ofMode_iff, programC_mem_ofCpu_iff, reduceCtorEq, false_and, or_false]
    at hprogram
  simp only [c_mem_ofMode_iff, c_mem_ofCpu_iff, true_and] at hc
  refine ⟨?_, ?_, ?_⟩
  · rw [hprogram]
    grind
  · rw [hc]
    grind
  · -- a module that is not compiled for one memory is compiled for the other
    rw [mergeProgramMemory, NameSet.mem_union, hc, hprogram, List.map_append, List.mem_append]
    cases p.cpu.isHarvard <;> grind

/-- A module that is compiled for one memory and depends on a file. -/
def crcUser (name : String) (mode : HarvardMode) : Module :=
  { (default : Module) with name, depends := ["crc.c"], enabled := true, harvard := some mode }

/-- Two modules that use a file, one for programs and one for data. -/
def crcCatalog : Catalog :=
  { Catalog.build "src" [] [] [] with
    modules := .ofList [("log", crcUser "log" .data), ("uart", crcUser "uart" .program)] }

def crcProject : Project :=
  { (default : Project) with name := "demo", cpu := { name := "atmega128", tags := ["avr", "harvard"] } }

def crcIndex : FileIndex :=
  { FileIndex.new "src" [] with listing := some ["lib/crc.c", "log.c", "uart_avr.c"] }

/-- The file is compiled for both memories, and the variant of a module for the CPU for programs. -/
theorem mem_ofCatalog_crc :
    crcIndex.GoesBy default ["lib/crc.c", "log.c", "uart_avr.c"]
      ∧ "src/lib/crc.c" ∈ (ofCatalog default crcProject crcCatalog crcIndex).1.programC
      ∧ "src/lib/crc.c" ∈ (ofCatalog default crcProject crcCatalog crcIndex).1.c
      ∧ "src/uart_avr.c" ∈ (ofCatalog default crcProject crcCatalog crcIndex).1.programC
      ∧ "src/uart_avr.c" ∉ (ofCatalog default crcProject crcCatalog crcIndex).1.c
      ∧ "src/uart_avr.c"
        ∈ (ofCatalog default crcProject crcCatalog crcIndex).1.mergeProgramMemory.c := by
  have hindex : crcIndex.GoesBy default ["lib/crc.c", "log.c", "uart_avr.c"] := ⟨rfl, .inl rfl⟩
  have hcrc : ∀ mode, ∀ name ∈ ["log", "uart"], BringsIn ["lib/crc.c", "log.c", "uart_avr.c"]
      crcProject crcCatalog (crcUser name mode) "src/lib/crc.c" := by
    intro mode name hname
    have hdep : ∀ name ∈ ["log", "uart"], "crc.c" ∈ crcCatalog.effectiveDeps name := by
      decide +kernel
    refine ⟨"crc.c", .inr ⟨hdep name hname, by decide +kernel⟩, "lib/crc.c", by decide, ⟨?_, ?_⟩,
      by decide⟩
    · decide
    · rw [if_pos (by decide)]
      decide
  have huart : BringsIn ["lib/crc.c", "log.c", "uart_avr.c"] crcProject crcCatalog
      (crcUser "uart" .program) "src/uart_avr.c" :=
    ⟨"uart", .inl rfl, "uart_avr.c", by decide,
      (standsFor_fileTags_iff (by decide +kernel)).2
        (.inr ⟨"avr", .inl (by decide), by decide, by decide⟩), by decide⟩
  have hlog : crcUser "log" .data ∈ crcCatalog.enabledModules := by decide +kernel
  have hmodule : crcUser "uart" .program ∈ crcCatalog.enabledModules := by decide +kernel
  obtain ⟨hprogram, hc, -⟩ := mem_ofCatalog hindex crcProject crcCatalog "src/lib/crc.c"
  obtain ⟨hvariant, -, hmerged⟩ := mem_ofCatalog hindex crcProject crcCatalog "src/uart_avr.c"
  refine ⟨hindex, hprogram.2 ⟨by decide, .inl ⟨_, hmodule, by decide, hcrc _ _ (by decide)⟩⟩,
    hc.2 (.inl ⟨_, hlog, fun _ => by decide, hcrc _ _ (by decide)⟩),
    hvariant.2 ⟨by decide, .inl ⟨_, hmodule, by decide, huart⟩⟩, by decide +kernel,
    hmerged.2 (.inl ⟨_, hmodule, .inl huart⟩)⟩

end SourceLists

end Configurator
