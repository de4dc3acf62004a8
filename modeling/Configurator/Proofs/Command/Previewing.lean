import Configurator.Proofs.Artifact.Changes
import Configurator.Proofs.Command.Regenerating

/-!
# Dry runs

A dry run leaves all files as they are, shows how the files that it counts would change, and says how
many they are. Generating from the same state makes or changes these files and the ones that a dry run
overlooks, which come out empty where there is no text yet (`Command.length_changedFiles`). So a dry run
announces what generating does exactly if there are none of these (`Command.exists_announcement_iff`).
-/

namespace Configurator.Command

open Artifact (writeAll)
open FileTree (key)
open scoped List

variable {settings : Settings} {tree t before after : FileTree} {descriptor dir path : String}
  {s : Session} {missing : List String} {now : Instant} {progress : Progress}
  {artifacts : List Artifact} {a : Artifact} {place : List String}

/-! ## What is announced -/

/-- The last line of a dry run. -/
def announcement (n : Nat) : String :=
  "\n→ " ++ toString n ++ " files would change (dry run)\n"

/-- The number that is announced can be told from what is printed. -/
theorem announcement_inj {shown shown' : String} {n m : Nat}
    (h : shown ++ announcement n = shown' ++ announcement m) : n = m := by
  have htext : ∀ (shown : String) (k : Nat), (shown ++ announcement k).toList
      = (shown.toList ++ ['\n', '→'] ++ ' ' :: Nat.toDigits 10 k)
        ++ " files would change (dry run)\n".toList := by
    intro shown k
    simp [announcement, Nat.toString_eq_repr]
  have hdigits : ∀ (front : List Char) (k : Nat),
      (front ++ ' ' :: Nat.toDigits 10 k).reverse.takeWhile Char.isDigit
        = (Nat.toDigits 10 k).reverse := by
    intro front k
    rw [List.reverse_append, List.reverse_cons, List.append_assoc, List.takeWhile_append_of_pos
      fun c hc => Nat.isDigit_of_mem_toDigits (by decide) (by decide) (List.mem_reverse.1 hc)]
    simp
  have hfront := congrArg String.toList h
  rw [htext, htext, List.append_left_inj] at hfront
  have hsame := congrArg (fun cs : List Char => cs.reverse.takeWhile Char.isDigit) hfront
  rw [hdigits, hdigits, List.reverse_inj] at hsame
  rw [← Nat.ofDigitChars_ten_toDigits (n := n), hsame, Nat.ofDigitChars_ten_toDigits]

/-- The artifacts that a dry run counts. -/
def announced (tree : FileTree) (dir : String) (artifacts : List Artifact) : List Artifact :=
  artifacts.filter (wouldChange tree dir)

/-- Whether an artifact is written and was not counted: it is empty, and no text stands where it goes. -/
def isOverlooked (tree : FileTree) (dir : String) (a : Artifact) : Bool :=
  !a.isKept tree dir && a.contents = "" && (tree.read (a.destination dir)).toOption.isNone

/-- Whether writing an artifact makes a file or changes what one holds. -/
def isNew (tree : FileTree) (dir : String) (a : Artifact) : Bool :=
  !a.isKept tree dir && (tree.read (a.destination dir)).toOption ≠ some a.contents

/-- A dry run succeeds and only prints. -/
theorem exists_execute_dry_run (hartifacts : artifactsOf s tree = .ok artifacts) (now : Instant) :
    ∃ dry : Progress, execute (generate s now true) tree = (.ok (), dry) ∧ dry.tree = tree
      ∧ dry.stdout = String.join ((announced tree s.project.outputDir artifacts).map
          (changeText tree s.project.outputDir))
        ++ announcement (announced tree s.project.outputDir artifacts).length := by
  rw [execute_eq, generate, runFrom_bind, runFrom_get]
  dsimp only
  rw [hartifacts]
  dsimp only
  rw [if_pos rfl, preview, runFrom_bind, runFrom_modify]
  dsimp only
  rw [say, runFrom_modify]
  refine ⟨_, rfl, rfl, ?_⟩
  simp only [String.empty_append, String.append_assoc, announcement, announced]
  rfl

/-- What is new is announced or overlooked. -/
theorem length_filter_isNew (tree : FileTree) (dir : String) (artifacts : List Artifact) :
    (artifacts.filter (isNew tree dir)).length = (announced tree dir artifacts).length
      + (artifacts.filter (isOverlooked tree dir)).length := by
  have hone : ∀ a : Artifact, (if isNew tree dir a then 1 else 0)
      = (if wouldChange tree dir a then 1 else 0) + if isOverlooked tree dir a then 1 else 0 := by
    intro a
    unfold isNew wouldChange isOverlooked currentText
    cases a.isKept tree dir with
    | true => rfl
    | false =>
        cases (tree.read (a.destination dir)).toOption with
        | none => by_cases hempty : a.contents = "" <;> simp [hempty, Ne.symm]
        | some text => by_cases hsame : text = a.contents <;> simp [hsame]
  rw [announced, ← List.countP_eq_length_filter, ← List.countP_eq_length_filter,
    ← List.countP_eq_length_filter]
  induction artifacts with
  | nil => rfl
  | cons a artifacts ih =>
      rw [List.countP_cons, List.countP_cons, List.countP_cons, ih, hone a]
      omega

/-! ## What generating changes -/

/-- The absolute path that a path leads to. -/
def keyOf? (t : FileTree) (path : String) : Option String :=
  (t.locate path).toOption.map key

theorem keyOf?_eq (h : t.locate path = .ok place) : keyOf? t path = some (key place) := by
  rw [keyOf?, h]
  rfl

/-- The files that generating makes or changes, but for the descriptor. -/
def changedFiles (before after : FileTree) (descriptor : String) : List String :=
  (before.changed after).filter fun path => keyOf? after descriptor ≠ some path

/-- Whether it can be told before a run where its artifacts go: to different places and not to that of the
descriptor, to files unless something else is there already, and by paths that lead to what stands there
already. -/
structure Foreseen (before after : FileTree) (descriptor dir : String) (artifacts : List Artifact) :
    Prop where
  apart : (descriptor :: artifacts.map (·.destination dir)).Pairwise after.Apart
  files : ∀ a ∈ artifacts, before.exists? (a.destination dir) = false →
    after.isFile (a.destination dir) = true
  seen : ∀ a ∈ artifacts, ∀ place, after.locate (a.destination dir) = .ok place →
    before.entry? place ≠ none → before.locate (a.destination dir) = .ok place

/-- No artifact goes where the descriptor is. -/
theorem Foreseen.keyOf?_ne (h : Foreseen before after descriptor dir artifacts) (ha : a ∈ artifacts)
    (hlocate : after.locate (a.destination dir) = .ok place) :
    keyOf? after descriptor ≠ some (key place) := by
  intro hkey
  obtain ⟨place', hlocate', hkey⟩ := Option.map_eq_some_iff.1 hkey
  exact (List.pairwise_cons.1 h.apart).1 _ (List.mem_map_of_mem ha) place' place
    (Outcome.toOption_eq_some_iff.1 hlocate') hlocate hkey

theorem Foreseen.pairwise_apart (h : Foreseen before after descriptor dir artifacts) :
    artifacts.Pairwise fun a b => after.Apart (a.destination dir) (b.destination dir) :=
  List.pairwise_map.1 (List.pairwise_cons.1 h.apart).2

/-- What a file holds after generating is what it held when the artifacts were written, unless it is the
descriptor. -/
theorem exists_contentAt?_of_generate
    (hopen : Session.load settings tree descriptor = .ok (s, missing))
    (hrun : execute (generate s now false) tree = (.ok (), progress))
    (hartifacts : artifactsOf s tree = .ok artifacts) :
    ∃ written t, writeAll tree s.project.outputDir artifacts = (.ok written, t)
      ∧ t.Grows progress.tree
      ∧ ∀ path, keyOf? progress.tree descriptor ≠ some path →
        progress.tree.contentAt? path = t.contentAt? path := by
  obtain ⟨written, t, hwrite, hsave⟩ := exists_saved_of_generate hrun hartifacts
  have hsaves := Session.grows_of_save hsave
  obtain ⟨-, -, -, -, -, -, -, -, hname⟩ := Session.load_eq_ok_iff.1 hopen
  obtain ⟨place, text, hlocate, -, htree⟩ := Session.exists_place_of_save hsave
  rw [hname] at hlocate
  refine ⟨written, t, hwrite, hsaves, fun path hpath => ?_⟩
  rw [keyOf?_eq (hsaves.locate hlocate)] at hpath
  rw [htree, FileTree.contentAt?_put_file, if_neg fun hkey => hpath (congrArg some hkey)]

/-- Nothing but artifacts and the descriptor is changed. -/
theorem exists_destination_of_mem_changedFiles
    (hopen : Session.load settings tree descriptor = .ok (s, missing))
    (hrun : execute (generate s now false) tree = (.ok (), progress))
    (hartifacts : artifactsOf s tree = .ok artifacts)
    (h : path ∈ changedFiles tree progress.tree descriptor) :
    ∃ a ∈ artifacts, keyOf? progress.tree (a.destination s.project.outputDir) = some path := by
  obtain ⟨written, t, hwrite, hsaves, hsame⟩ := exists_contentAt?_of_generate hopen hrun hartifacts
  obtain ⟨hchanged, hdescriptor⟩ := List.mem_filter.1 h
  by_contra hnone
  refine (FileTree.mem_changed_iff.1 hchanged).2 ?_
  rw [hsame path (of_decide_eq_true hdescriptor)]
  refine Artifact.contentAt?_writeAll hwrite fun a ha place hlocate hkey => hnone ⟨a, ha, ?_⟩
  rw [keyOf?_eq (hsaves.locate hlocate), hkey]

section

variable (hopen : Session.load settings tree descriptor = .ok (s, missing))
  (hrun : execute (generate s now false) tree = (.ok (), progress))
  (hartifacts : artifactsOf s tree = .ok artifacts)
  (hforeseen : Foreseen tree progress.tree descriptor s.project.outputDir artifacts)

include hopen hrun hartifacts hforeseen

/-- After generating, an artifact stands where it goes, unless it was to be kept before. -/
theorem exists_contentAt?_of_foreseen (ha : a ∈ artifacts) :
    ∃ place, progress.tree.locate (a.destination s.project.outputDir) = .ok place
      ∧ (a.isKept tree s.project.outputDir = true
          ∧ progress.tree.contentAt? (key place) = tree.contentAt? (key place)
        ∨ a.isKept tree s.project.outputDir = false ∧ place ≠ []
          ∧ progress.tree.contentAt? (key place) = some (.text a.contents)) := by
  obtain ⟨written, t, hwrite, hsaves, hsame⟩ := exists_contentAt?_of_generate hopen hrun hartifacts
  obtain ⟨u, place, hbefore, hlocate, hcontent⟩ := Artifact.exists_contentAt?_of_writeAll hwrite
    (hforeseen.pairwise_apart.imp fun hplaces => hplaces.of_grows hsaves) ha
  have hlater := hsaves.locate hlocate
  rw [← hsame _ (hforeseen.keyOf?_ne ha hlater)] at hcontent
  refine ⟨place, hlater, ?_⟩
  cases hkept : a.isKept tree s.project.outputDir with
  | true =>
      have hstill := Artifact.isKept_of_grows hkept hbefore
      rw [hstill] at hcontent
      exact .inl ⟨rfl, (hcontent.resolve_right fun h => by cases h.1).2⟩
  | false =>
      rcases hcontent with ⟨hkept', hcontent⟩ | ⟨-, hcontent⟩
      · -- only what stood there before can have been kept
        rw [Artifact.isKept, Bool.and_eq_true] at hkept'
        rw [Artifact.isKept, hkept'.1, Bool.true_and] at hkept
        obtain ⟨content, hfile⟩ := FileTree.isFile_iff.1 (hforeseen.files a ha hkept)
        obtain ⟨place', hlocate', hfile⟩ := FileTree.find?_eq_some_iff.1 hfile
        rw [Except.ok.inj (hlocate'.symm.trans hlater)] at hfile
        have hne : place ≠ [] := FileTree.ne_nil_of_entry? (t := progress.tree) (by simp [hfile])
        rw [FileTree.entry?_eq_file_iff hne, hcontent, ← FileTree.entry?_eq_file_iff hne] at hfile
        have hexists : tree.exists? (a.destination s.project.outputDir) = true :=
          FileTree.exists?_iff.2 ⟨_, FileTree.find?_eq_some_iff.2
            ⟨place, hforeseen.seen a ha place hlater (by simp [hfile]), hfile⟩⟩
        rw [hexists] at hkept
        cases hkept
      · exact .inr ⟨rfl, hcontent⟩

/-- The file where an artifact goes is changed if it is to be written and its text is not there. -/
theorem exists_mem_changed_iff (ha : a ∈ artifacts) :
    ∃ place, progress.tree.locate (a.destination s.project.outputDir) = .ok place
      ∧ (key place ∈ tree.changed progress.tree ↔ isNew tree s.project.outputDir a = true) := by
  obtain ⟨place, hlocate, hcontent⟩ :=
    exists_contentAt?_of_foreseen hopen hrun hartifacts hforeseen ha
  refine ⟨place, hlocate, ?_⟩
  rw [FileTree.mem_changed_iff, isNew]
  rcases hcontent with ⟨hkept, hcontent⟩ | ⟨hkept, hne, hcontent⟩
  · simp [hkept, hcontent]
  · have hread : (tree.read (a.destination s.project.outputDir)).toOption = some a.contents
        ↔ tree.contentAt? (key place) = some (.text a.contents) := by
      rw [Outcome.toOption_eq_some_iff, FileTree.read_eq_ok_iff, ← FileTree.entry?_eq_file_iff hne]
      constructor
      · rintro ⟨place', hlocate', hentry⟩
        rwa [← Except.ok.inj (((grows_of_generate hrun).locate hlocate').symm.trans hlocate)]
      · intro hentry
        exact ⟨place, hforeseen.seen a ha place hlocate (by simp [hentry]), hentry⟩
    rw [hcontent, hkept, Bool.not_false, Bool.true_and, decide_eq_true_iff,
      and_iff_right (Option.some_ne_none _), ne_comm]
    exact not_congr hread.symm

/-- Generating makes or changes the files that are announced and those that are overlooked. -/
theorem length_changedFiles :
    (changedFiles tree progress.tree descriptor).length
      = (announced tree s.project.outputDir artifacts).length
        + (artifacts.filter (isOverlooked tree s.project.outputDir)).length := by
  have hperm : (artifacts.filter (isNew tree s.project.outputDir)).map
        (fun a => keyOf? progress.tree (a.destination s.project.outputDir))
      ~ (changedFiles tree progress.tree descriptor).map some := by
    refine (List.perm_ext_iff_of_nodup ?_ ?_).2 fun key? => ?_
    · refine List.pairwise_map.2 ((hforeseen.pairwise_apart.imp_of_mem ?_).filter _)
      intro a b ha hb hplaces hkey
      obtain ⟨place, hlocate, -⟩ := exists_mem_changed_iff hopen hrun hartifacts hforeseen ha
      obtain ⟨place', hlocate', -⟩ := exists_mem_changed_iff hopen hrun hartifacts hforeseen hb
      rw [keyOf?_eq hlocate, keyOf?_eq hlocate', Option.some_inj] at hkey
      exact hplaces place place' hlocate hlocate' hkey
    · exact ((FileTree.nodup_changed _ _).filter _).map (Option.some_injective _)
    · rw [List.mem_map, List.mem_map]
      constructor
      · rintro ⟨a, ha, rfl⟩
        obtain ⟨ha, hnew⟩ := List.mem_filter.1 ha
        obtain ⟨place, hlocate, hchanged⟩ :=
          exists_mem_changed_iff hopen hrun hartifacts hforeseen ha
        exact ⟨key place, List.mem_filter.2 ⟨hchanged.2 hnew,
          decide_eq_true (hforeseen.keyOf?_ne ha hlocate)⟩, (keyOf?_eq hlocate).symm⟩
      · rintro ⟨path, hpath, rfl⟩
        obtain ⟨a, ha, hkey⟩ := exists_destination_of_mem_changedFiles hopen hrun hartifacts hpath
        obtain ⟨place, hlocate, hchanged⟩ :=
          exists_mem_changed_iff hopen hrun hartifacts hforeseen ha
        refine ⟨a, List.mem_filter.2 ⟨ha, hchanged.1 ?_⟩, hkey⟩
        rw [keyOf?_eq hlocate, Option.some_inj] at hkey
        rw [hkey]
        exact (List.mem_filter.1 hpath).1
  have hlength := hperm.length_eq
  rw [List.length_map, List.length_map, length_filter_isNew] at hlength
  exact hlength.symm

end

/-- Where it can be told beforehand where the artifacts go, a dry run announces as many files as generating
makes or changes exactly if it overlooks none. Each of these is where an artifact goes. -/
theorem exists_announcement_iff (hopen : Session.load settings tree descriptor = .ok (s, missing))
    (hrun : execute (generate s now false) tree = (.ok (), progress))
    (hartifacts : artifactsOf s tree = .ok artifacts)
    (hforeseen : Foreseen tree progress.tree descriptor s.project.outputDir artifacts)
    (now' : Instant) :
    ∃ dry shown n, execute (generate s now' true) tree = (.ok (), dry) ∧ dry.tree = tree
      ∧ dry.stdout = shown ++ announcement n
      ∧ n = (announced tree s.project.outputDir artifacts).length
      ∧ (n = (changedFiles tree progress.tree descriptor).length
        ↔ ∀ a ∈ artifacts, isOverlooked tree s.project.outputDir a = false)
      ∧ ∀ path ∈ changedFiles tree progress.tree descriptor, ∃ a ∈ artifacts,
        keyOf? progress.tree (a.destination s.project.outputDir) = some path := by
  obtain ⟨dry, hdry, htree, hstdout⟩ := exists_execute_dry_run hartifacts now'
  have hlength := length_changedFiles hopen hrun hartifacts hforeseen
  refine ⟨dry, _, _, hdry, htree, hstdout, rfl, ?_,
    fun path => exists_destination_of_mem_changedFiles hopen hrun hartifacts⟩
  rw [hlength, Nat.left_eq_add, List.length_eq_zero_iff, List.filter_eq_nil_iff]
  simp only [Bool.not_eq_true]

/-! ## A project with one header -/

section

variable {enabled : List String} {parameters : NameMap (NameMap String)} {savedAt : Option Instant}
  {header text copy makefile wizard user : String}

/-- The generated files are looked for at the same places at any time. -/
theorem locate_artifactsWith_congr (before : FileTree) (h : before.workingDir = [])
    (h' : after.workingDir = []) (ha : a ∈ artifactsWith copy makefile wizard user) :
    after.locate (a.destination "o") = before.locate (a.destination "o") := by
  have hdest := List.mem_map_of_mem (f := (·.destination "o")) ha
  obtain ⟨-, h₁, h₂, h₃, h₄⟩ := locate_generated h
  obtain ⟨-, h₁', h₂', h₃', h₄'⟩ := locate_generated h'
  rw [destinations_artifactsWith] at hdest
  simp only [List.mem_cons, List.not_mem_nil, or_false] at hdest
  rcases hdest with hdest | hdest | hdest | hdest <;> rw [hdest]
  · rw [h₁, h₁']
  · rw [h₂, h₂']
  · rw [h₃, h₃']
  · rw [h₄, h₄']

/-- In that project it can be told beforehand where the artifacts go. -/
theorem foreseen_soleTree (hproject : s.project = soleProject enabled parameters savedAt)
    (hartifacts : artifactsOf s (soleTree header text)
      = .ok (artifactsWith copy makefile wizard user))
    (hrun : execute (generate s now false) (soleTree header text) = (.ok (), progress)) :
    Foreseen (soleTree header text) progress.tree "p.json" "o"
      (artifactsWith copy makefile wizard user) := by
  obtain ⟨written, t, hwrite, hsave⟩ := exists_saved_of_generate hrun hartifacts
  have hdir : s.project.outputDir = "o" := by rw [hproject]; rfl
  rw [hdir] at hwrite
  have hsaves := Session.grows_of_save hsave
  have hworking := (grows_of_generate hrun).workingDir
  refine ⟨pairwise_apart_artifactsWith hworking .., fun a ha _ => ?_, fun a ha place hplace _ => ?_⟩
  · have hwritten : ∃ content, t.find? (a.destination "o") = some (.file content) := by
      obtain ⟨-, hapart⟩ :=
        List.pairwise_cons.1 (pairwise_apart_artifactsWith hworking copy makefile wizard user)
      cases howned : a.userOwned with
      | false =>
          exact ⟨_, Artifact.find?_writeAll hwrite
            ((List.pairwise_map.1 hapart).imp fun hplaces => hplaces.of_grows hsaves) ha howned⟩
      | true =>
          obtain ⟨written', t', hwrite', huser⟩ :=
            exists_writeAll_soleTree header text copy makefile wizard user
          obtain rfl : t' = t := congrArg Prod.snd (hwrite'.symm.trans hwrite)
          have hdest : a.destination "o" = "o/p/p_user.mk" := by
            have hjoin : Path.join "o" "p/p_user.mk" = "o/p/p_user.mk" := by decide
            simp only [artifactsWith, List.mem_cons, List.not_mem_nil, or_false] at ha
            rcases ha with rfl | rfl | rfl | rfl
            · cases howned
            · cases howned
            · cases howned
            · exact hjoin
          rw [hdest]
          refine ⟨_, FileTree.find?_eq_some_iff.2 ⟨_, (locate_generated ?_).2.2.2.2, huser⟩⟩
          exact hsaves.workingDir.symm.trans hworking
    exact hsaves.isFile (FileTree.isFile_iff.2 hwritten)
  · rwa [← locate_artifactsWith_congr (soleTree header text) rfl hworking ha]

end

/-- The project with a rate in its header is one where it can be told beforehand. -/
theorem exists_announcement_iff_rate :
    ∃ s progress artifacts, Session.load {} (rateTree ["m"] .empty none) "p.json" = .ok (s, [])
      ∧ execute (generate s epoch false) (rateTree ["m"] .empty none) = (.ok (), progress)
      ∧ artifactsOf s (rateTree ["m"] .empty none) = .ok artifacts
      ∧ ⟨"p/cfg/c.h", rateText, false⟩ ∈ artifacts
      ∧ ∃ dry shown n, execute (generate s epoch true) (rateTree ["m"] .empty none) = (.ok (), dry)
        ∧ dry.tree = rateTree ["m"] .empty none ∧ dry.stdout = shown ++ announcement n
        ∧ n = (announced (rateTree ["m"] .empty none) s.project.outputDir artifacts).length
        ∧ (n = (changedFiles (rateTree ["m"] .empty none) progress.tree "p.json").length
          ↔ ∀ a ∈ artifacts,
            isOverlooked (rateTree ["m"] .empty none) s.project.outputDir a = false)
        ∧ ∀ path ∈ changedFiles (rateTree ["m"] .empty none) progress.tree "p.json",
          ∃ a ∈ artifacts,
            keyOf? progress.tree (a.destination s.project.outputDir) = some path := by
  have hstart : (soleProject ["m"] .empty none).applyTo (rateCatalog "10")
      = ([], rateCatalogOn "10") := by cbv
  obtain ⟨files, hload⟩ := load_rateTree (by simp) hstart
  have hheaders : Artifact.ofHeaders (soleProject ["m"] .empty none) "cfg"
      (rateCatalogOn "10").syncAutoenabled.2 = [⟨"p/cfg/c.h", rateText, false⟩] := by
    decide +kernel
  obtain ⟨makefile, wizard, user, hartifacts⟩ := exists_artifactsOf_soleProject
    (s := ⟨{}, "p.json", soleProject ["m"] .empty none, rateCatalogOn "10", files⟩) rfl rfl hheaders
    (rateTree ["m"] .empty none)
  obtain ⟨progress, hrun, -⟩ := exists_generate_soleTree rfl rfl declares_rateText hartifacts epoch
  exact ⟨_, progress, _, hload, hrun, hartifacts, List.mem_cons_self,
    exists_announcement_iff hload hrun hartifacts (foreseen_soleTree rfl hartifacts hrun) epoch⟩

/-! ## An empty header -/

def emptyHeader : Header :=
  ⟨"c.h", [], List.nodup_nil, ""⟩

/-- The catalogue of that source tree with the module enabled. -/
def emptyCatalogOn : Catalog :=
  { Catalog.build "s" [soleModule] [emptyHeader] [] with
    modules := .ofList [("m", { soleModule with enabled := true })]
    explicit := .ofList ["m"] }

theorem parse_emptyHeader : Header.parse "c.h" "" = .ok emptyHeader :=
  Outcome.toOption_eq_some_iff.1 (by decide +kernel)

theorem declares_emptyHeader : Catalog.declarationsOf [] "c.h" "" = .ok ⟨none, .empty⟩ := by
  cbv

/-- There is no copy of a header in that tree yet, so an empty one is overlooked. -/
theorem isOverlooked_soleTree (header text : String) :
    isOverlooked (soleTree header text) "o" ⟨"p/cfg/c.h", "", false⟩ = true := by
  have hjoin : Artifact.destination "o" ⟨"p/cfg/c.h", "", false⟩ = "o/p/cfg/c.h" :=
    (by decide : Path.join "o" "p/cfg/c.h" = "o/p/cfg/c.h")
  have hentry : FileTree.entry? (soleTree header text) ["o", "p", "cfg", "c.h"] = none := by
    simp [entry?_soleTree, key]
  have hread : (soleTree header text).read "o/p/cfg/c.h" = .error .notFound := by
    rw [FileTree.read, (locate_generated rfl).2.1]
    simp only [bind, Except.bind, hentry]
  rw [isOverlooked, hjoin, hread]
  rfl

/-- The copy of an empty header is made, but not announced. -/
theorem not_forall_announcement :
    ¬ ∀ (settings : Settings) (tree : FileTree) (descriptor : String) (s : Session)
        (missing : List String) (now now' : Instant) (progress dry : Progress),
      Session.load settings tree descriptor = .ok (s, missing) →
      execute (generate s now false) tree = (.ok (), progress) →
      execute (generate s now' true) tree = (.ok (), dry) →
      ∃ shown, dry.stdout
        = shown ++ announcement (changedFiles tree progress.tree descriptor).length := by
  intro hall
  have hstart : (soleProject ["m"] .empty none).applyTo
      (Catalog.build "s" [soleModule] [emptyHeader] []) = ([], emptyCatalogOn) := by cbv
  have hsaved : ∀ t ∈ (none : Option Instant), Instant.read? t.write = some t := by simp
  obtain ⟨files, hload⟩ :=
    Session.load_soleTree parse_emptyHeader declares_emptyHeader hsaved ["m"] .empty
  rw [hstart] at hload
  have hheaders : Artifact.ofHeaders (soleProject ["m"] .empty none) "cfg"
      emptyCatalogOn.syncAutoenabled.2 = [⟨"p/cfg/c.h", "", false⟩] := by
    decide +kernel
  obtain ⟨makefile, wizard, user, hartifacts⟩ := exists_artifactsOf_soleProject
    (s := ⟨{}, "p.json", soleProject ["m"] .empty none, emptyCatalogOn, files⟩) rfl rfl hheaders
    (soleTree "" (soleProject ["m"] .empty none).write)
  obtain ⟨progress, hrun, -⟩ := exists_generate_soleTree rfl rfl declares_emptyHeader hartifacts epoch
  obtain ⟨dry, hdry, -, hstdout⟩ := exists_execute_dry_run hartifacts epoch
  obtain ⟨shown, hshown⟩ := hall {} _ "p.json" _ [] epoch epoch progress dry hload hrun hdry
  -- the number is too small by that of the overlooked files
  have hnumber := announcement_inj (hstdout.symm.trans hshown)
  rw [length_changedFiles hload hrun hartifacts (foreseen_soleTree rfl hartifacts hrun),
    Nat.left_eq_add, List.length_eq_zero_iff, List.filter_eq_nil_iff] at hnumber
  exact hnumber ⟨"p/cfg/c.h", "", false⟩ List.mem_cons_self (isOverlooked_soleTree "" _)

end Configurator.Command
