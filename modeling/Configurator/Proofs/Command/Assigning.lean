import Configurator.Command.Editing
import Configurator.Proofs.Catalog.Change
import Configurator.Proofs.Command.Running
import Configurator.Proofs.Command.Session
import Configurator.Proofs.Project.Recording

/-!
# Assigned values in later sessions

Giving a parameter a value is a command of its own: it changes the catalogue of one session, and what
the next one shows is what went through the descriptor. It is the same value
(`Command.exists_rendered_of_assign`) if an enabled module is bound to the header, because only headers
of enabled modules are recorded.
-/

namespace Configurator

/-! ## Sessions that find the same -/

/-- Whether a project finds in one tree what another one finds in another tree: a source tree that
declares the same, and copies of the headers that hold the same. -/
structure Project.FindsSame (settings : Settings) (tree : FileTree) (p : Project) (tree' : FileTree)
    (p' : Project) : Prop where
  declared : ∀ c files, Catalog.load settings p.cpu.fileTags tree p.sourceRoot = .ok (c, files) →
    ∃ files', Catalog.load settings p'.cpu.fileTags tree' p'.sourceRoot
      = .ok (c.atRoot p'.sourceRoot, files')
  copies : ∀ c files, Catalog.load settings p.cpu.fileTags tree p.sourceRoot = .ok (c, files) →
    ∀ path ∈ c.headers.keys,
      Project.copyOf? tree' (settings.configDirIn p'.directory) path
        = Project.copyOf? tree (settings.configDirIn p.directory) path

namespace Session

open Project (FindsSame)

variable {settings : Settings} {tree tree' : FileTree} {descriptor : String} {s : Session}
  {missing : List String} {c : Catalog} {now : Instant} {configuration name value : String}
  {change : Catalog.Change}

/-- What is written for a value that was saved is written for it in the next session. -/
theorem exists_rendered_of_save (hopen : load settings tree descriptor = .ok (s, missing))
    (hset : s.catalog.setParameter configuration name value = .ok (change, c))
    (howner : c.owners configuration ≠ []) {p : Parameter}
    (hp : c.parameter configuration name = .ok p)
    (hsign : p.type = .integer → p.suffix ≠ [] →
      IntegerLiteral.looksNumeric p.value.toList = true)
    (hnow : now.IsShown) (hsave : ({ s with catalog := c } : Session).save now tree = .ok tree')
    (hsame : FindsSame settings tree s.project tree' (s.project.reopened descriptor)) :
    ∃ s' missing', load settings tree' descriptor = .ok (s', missing')
      ∧ ∃ q, s'.catalog.parameter configuration name = .ok q ∧ q.rendered = p.rendered := by
  obtain ⟨-, -, -, -, -, -, -, -, rfl⟩ := load_eq_ok_iff.1 hopen
  obtain ⟨fresh, merged, n, hscan, hmerge, hcatalog, hidle, hmerged, hdecl⟩ :=
    exists_merged_of_load hopen
  obtain ⟨saved, hsaved⟩ := save_eq_ok_iff.1 hsave
  have hbuilt : c.IsBuilt := hmerged.congr ((Catalog.declared_setParameter hset).trans hdecl)
  -- the next session
  obtain ⟨files', hscan'⟩ := hsame.declared fresh s.files hscan
  have hmerge' : Project.mergeGenerated tree'
      (settings.configDirIn (s.project.reopened s.descriptor).directory)
      (fresh.atRoot (s.project.reopened s.descriptor).sourceRoot)
      = (.ok n, merged.atRoot (s.project.reopened s.descriptor).sourceRoot) := by
    refine (Project.mergeHeaders_atRoot _ (hsame.copies fresh s.files hscan) fresh).trans ?_
    rw [← Project.mergeGenerated, hmerge]
    rfl
  obtain ⟨s', missing', hload, -, -, -, hcatalog'⟩ :=
    exists_load_of_save (p := s.project.capture c) hopen (Project.grows_of_save hsaved) ⟨rfl, rfl⟩
      hnow hsaved hscan' hmerge'
  refine ⟨s', missing', hload, ?_⟩
  -- what was recorded
  obtain ⟨old, new, hold, hnew, hparam, -, -⟩ := Catalog.exists_parameter_setParameter hset
  rw [hp, Except.ok.injEq] at hparam
  subst hparam
  have hrecorded := Project.mem_recorded_capture hbuilt s.project howner hp
    (Parameter.type_ne_autoenabled_of_accept hnew)
  -- what comes back
  rw [hcatalog] at hold
  obtain ⟨start, hstart, holddecl, hunsigned, hlong⟩ :=
    Project.exists_parameter_applyTo hidle s.project hold
  obtain ⟨hunsigned', hlong'⟩ := Parameter.suffixes_accept hnew
  have hidle' : (merged.atRoot (s.project.reopened s.descriptor).sourceRoot).Idle := hidle
  have hstart' : (merged.atRoot (s.project.reopened s.descriptor).sourceRoot).parameter
      configuration name = .ok start := hstart
  have hlists : s.catalog.lists = merged.lists := Catalog.lists_congr hdecl
  have hlist : old.valueList = start.valueList := congrArg (·.valueList) holddecl
  rw [hlists, hlist] at hnew
  refine ⟨_, ?_, Parameter.rendered_restored holddecl hnew (hunsigned' ∘ hunsigned)
    (hlong' ∘ hlong) hsign⟩
  rw [hcatalog', Project.parameter_applyTo hidle']
  exact Project.parameter_restoreValues hidle' hrecorded hstart'

end Session

/-! ## Assigning -/

namespace Command

open Project (FindsSame)

variable {settings : Settings} {tree : FileTree} {descriptor : String} {s : Session}
  {missing : List String} {c : Catalog} {now : Instant}
  {target configuration name value : String} {change : Catalog.Change} {progress : Progress}

/-- Assigning a value saves the session behind what is printed, unless nothing has changed. -/
theorem exists_execute_assign (htarget : configurationOf? s.catalog target = some configuration)
    (hset : s.catalog.setParameter configuration name value = .ok (change, c)) (now : Instant)
    (tree : FileTree) :
    ∃ p : Progress, p.tree = tree ∧ execute (assign s now target name value) tree
      = if change.changed then (saveSession { s with catalog := c } now).runFrom p
        else (.ok (), p) := by
  obtain ⟨old, new, hold, -⟩ := Catalog.exists_parameter_setParameter hset
  rw [execute_eq, assign, htarget]
  dsimp only
  rw [runFrom_bind, runFrom_attempt, hold]
  dsimp only [Except.mapError]
  obtain ⟨p, hp, heq⟩ := (prints_say
    ("! " ++ name ++ " is not supported on " ++ s.project.cpu.name)).runFrom_ite
    ((!(Support.of old.supports s.project.tagEnvironment).supported) = true) _ { tree }
  rw [heq, runFrom_bind, runFrom_attempt, hset]
  dsimp only [Except.mapError]
  cases hchanged : change.changed with
  | false =>
      obtain ⟨p', hp', htree⟩ := prints_say ("✓ " ++ change.name ++ " already " ++ change.newValue) p
      exact ⟨p', htree.trans hp, by simpa using hp'⟩
  | true =>
      obtain ⟨p₁, hp₁, heq₁⟩ := (prints_say ("✓ " ++ change.name ++ " " ++ change.oldValue ++ " → "
        ++ change.newValue)).runFrom_seq _ p
      obtain ⟨p₂, hp₂, heq₂⟩ := (prints_sayAll (change.enabled.map ("  + " ++ ·))).runFrom_seq _ p₁
      obtain ⟨p₃, hp₃, heq₃⟩ := (prints_sayAll (hintLines change.released)).runFrom_seq _ p₂
      refine ⟨p₃, hp₃.trans (hp₂.trans (hp₁.trans hp)), ?_⟩
      rw [if_neg (by simp), heq₁, heq₂, heq₃, if_pos rfl]

theorem tree_of_assign (hrun : execute (assign s now target name value) tree = (.ok (), progress))
    (htarget : configurationOf? s.catalog target = some configuration)
    (hset : s.catalog.setParameter configuration name value = .ok (change, c)) :
    (change.changed = false ∧ progress.tree = tree)
      ∨ (change.changed = true ∧ ({ s with catalog := c } : Session).save now tree
        = .ok progress.tree) := by
  obtain ⟨p, rfl, heq⟩ := exists_execute_assign htarget hset now tree
  rw [hrun] at heq
  split at heq
  · next hchanged =>
    rw [runFrom_saveSession] at heq
    split at heq
    · next tree' hsave =>
      cases heq
      exact .inr ⟨hchanged, hsave⟩
    · cases heq
  · next hchanged =>
    cases heq
    exact .inl ⟨by simpa using hchanged, rfl⟩

/-- What is written for a value that was assigned is written for it in the next session, provided that
an enabled module is bound to the header and the source tree and the generated headers are as before. -/
theorem exists_rendered_of_assign (hopen : Session.load settings tree descriptor = .ok (s, missing))
    (hrun : execute (assign s now target name value) tree = (.ok (), progress))
    (htarget : configurationOf? s.catalog target = some configuration)
    (hset : s.catalog.setParameter configuration name value = .ok (change, c)) {p old : Parameter}
    (hold : s.catalog.parameter configuration name = .ok old)
    (hp : c.parameter configuration name = .ok p) (hnow : now.IsShown)
    (hsame : FindsSame settings tree s.project progress.tree (s.project.reopened descriptor))
    (howner : change.changed = true → c.owners configuration ≠ [])
    (hsuffix : change.changed = false → p.suffix = old.suffix)
    (hsign : p.type = .integer → p.suffix ≠ [] →
      IntegerLiteral.looksNumeric p.value.toList = true) :
    ∃ s' missing', Session.load settings progress.tree descriptor = .ok (s', missing')
      ∧ ∃ q, s'.catalog.parameter configuration name = .ok q ∧ q.rendered = p.rendered := by
  rcases tree_of_assign hrun htarget hset with ⟨hchanged, htree⟩ | ⟨hchanged, hsave⟩
  · rw [htree]
    refine ⟨s, missing, hopen, old, hold, ?_⟩
    obtain ⟨old', new, hold', hnew, hparam, holdvalue, hnewvalue⟩ :=
      Catalog.exists_parameter_setParameter hset
    rw [hold, Except.ok.injEq] at hold'
    rw [hp, Except.ok.injEq] at hparam
    subst hold' hparam
    have htype : old.type = p.type := (congrArg (·.type) (Parameter.declared_accept hnew)).symm
    have hvalue : old.value = p.value := by
      rw [← holdvalue, ← hnewvalue]
      simpa [Catalog.Change.changed] using hchanged
    rw [← String.toList_inj, Parameter.toList_rendered, Parameter.toList_rendered, hvalue, htype,
      hsuffix hchanged]
  · exact Session.exists_rendered_of_save hopen hset (howner hchanged) hp hsign hnow hsave hsame

/-! ## A header of a disabled module -/

def rateText : String := "/// Rate\n#define RATE 10\n"

def rate (value : String) : Parameter where
  name := "RATE"
  value
  type := .integer
  min := none
  max := none
  long := false
  unsigned := false
  valueList := none
  conditionalDeps := []
  supports := none
  brief := "Rate"
  description := ""
  extra := .empty
  span := ⟨22, 24⟩

def rateCatalog (value : String) : Catalog :=
  .build "s" [soleModule] [⟨"c.h", [rate value], by simp, rateText⟩] []

/-- The same with the module enabled. -/
def rateCatalogOn (value : String) : Catalog :=
  { rateCatalog value with
    modules := .ofList [("m", { soleModule with enabled := true })]
    explicit := .ofList ["m"] }

def epoch : Instant := ⟨0, 0⟩

/-- The tree with a project that records some values. -/
def rateTree (enabled : List String) (parameters : NameMap (NameMap String))
    (savedAt : Option Instant) : FileTree :=
  soleTree rateText (soleProject enabled parameters savedAt).write

theorem isShown_epoch : epoch.IsShown := by
  constructor <;> decide

theorem parse_rateText :
    Header.parse "c.h" rateText = .ok ⟨"c.h", [rate "10"], by simp, rateText⟩ :=
  Outcome.toOption_eq_some_iff.1 (by decide +kernel)

theorem declares_rateText :
    Catalog.declarationsOf [] "c.h" rateText = .ok ⟨none, .empty⟩ := by
  cbv

theorem parameter_rateCatalog (value : String) :
    (rateCatalog value).parameter "c.h" "RATE" = .ok (rate value) :=
  rfl

theorem write_soleTree (header old new : String) :
    (soleTree header old).write "p.json" (.text new) = .ok (soleTree header new) := by
  have hlocate : (soleTree header old).locate "p.json" = .ok ["p.json"] := by cbv
  have hentry : FileTree.entry? (soleTree header old) ["p.json"] = some (.file (.text old)) := by cbv
  have hkey : FileTree.key ["p.json"] = "/p.json" := by decide +kernel
  have hentries : ((soleTree header old).put ["p.json"] (.file (.text new))).entries
      = (soleTree header new).entries := by
    refine NameMap.ext_get? fun name => ?_
    simp only [FileTree.put, hkey, soleTree, NameMap.ofList, List.foldl, NameMap.get?_insert]
    by_cases hname : "/p.json" = name
    · subst hname
      simp
    · simp [hname]
  have hput : (soleTree header old).put ["p.json"] (.file (.text new)) = soleTree header new :=
    congrArg (FileTree.mk · []) hentries
  rw [FileTree.write, hlocate]
  simp only [bind, Except.bind, hentry, hput]

section

variable {enabled : List String} {parameters : NameMap (NameMap String)} {savedAt : Option Instant}
  {start : Catalog}

theorem load_rateTree (hsaved : ∀ t ∈ savedAt, Instant.read? t.write = some t)
    (hstart : (soleProject enabled parameters savedAt).applyTo (rateCatalog "10") = ([], start)) :
    ∃ files, Session.load {} (rateTree enabled parameters savedAt) "p.json"
      = .ok (⟨{}, "p.json", soleProject enabled parameters savedAt, start, files⟩, []) := by
  obtain ⟨files, hload⟩ := Session.load_soleTree parse_rateText declares_rateText hsaved enabled
    parameters
  rw [← rateCatalog, hstart] at hload
  exact ⟨files, hload⟩

/-- Assigning the rate in a project that records no values, from opening it to what is saved. -/
theorem exists_assign_rate
    (hstart : (soleProject enabled .empty none).applyTo (rateCatalog "10") = ([], start))
    (htarget : configurationOf? start "m" = some "c.h")
    (hset : start.setParameter "c.h" "RATE" "20" = .ok (change, c))
    (hchanged : change.changed = true)
    (hcapture : (soleProject enabled .empty none).capture c = soleProject enabled parameters none) :
    ∃ s progress, Session.load {} (rateTree enabled .empty none) "p.json" = .ok (s, [])
      ∧ s.project = soleProject enabled .empty none ∧ s.catalog = start
      ∧ execute (assign s epoch "m" "RATE" "20") (rateTree enabled .empty none)
        = (.ok (), progress)
      ∧ progress.tree = rateTree enabled parameters (some epoch) := by
  obtain ⟨files, hload⟩ := load_rateTree (by simp) hstart
  obtain ⟨p, htree, hrun⟩ := exists_execute_assign
    (s := ⟨{}, "p.json", soleProject enabled .empty none, start, files⟩) htarget hset epoch
    (rateTree enabled .empty none)
  have hsave : (⟨{}, "p.json", soleProject enabled .empty none, c, files⟩ : Session).save epoch
      (rateTree enabled .empty none) = .ok (rateTree enabled parameters (some epoch)) := by
    refine Session.save_eq_ok_iff.2 ⟨soleProject enabled parameters (some epoch), ?_⟩
    have hsaved : { soleProject enabled parameters none with savedAt := some epoch }
        = soleProject enabled parameters (some epoch) := rfl
    rw [hcapture, Project.save]
    dsimp only
    rw [hsaved, Project.storePaths_soleProject, rateTree, write_soleTree]
    rfl
  rw [hchanged, if_pos rfl, runFrom_saveSession, htree, hsave] at hrun
  exact ⟨_, _, hload, rfl, rfl, hrun, rfl⟩

/-- What stands in the descriptor changes nothing else. -/
theorem findsSame_rateTree {parameters' : NameMap (NameMap String)} {savedAt' : Option Instant} :
    FindsSame {} (rateTree enabled parameters savedAt) (soleProject enabled parameters savedAt)
      (rateTree enabled parameters' savedAt')
      ((soleProject enabled parameters savedAt).reopened "p.json") := by
  have hload : ∀ {c files}, Catalog.load {} (soleProject enabled parameters savedAt).cpu.fileTags
      (rateTree enabled parameters savedAt) "s" = .ok (c, files) → c = rateCatalog "10" := by
    intro c files h
    obtain ⟨files', hload⟩ := Catalog.load_soleTree parse_rateText declares_rateText
      (soleProject enabled parameters savedAt).write
    have hsame := h.symm.trans hload
    cases hsame
    rfl
  rw [Project.reopened_soleProject]
  refine ⟨fun c files h => ?_, fun c files h path hpath => ?_⟩
  · rw [hload h]
    exact Catalog.load_soleTree parse_rateText declares_rateText _
  · rw [hload h] at hpath
    rw [List.mem_singleton.1 hpath, Settings.configDirIn_soleProject, rateTree, rateTree,
      Project.copyOf?_soleTree, Project.copyOf?_soleTree]

end

theorem read?_write_epoch : ∀ t ∈ some epoch, Instant.read? t.write = some t := by
  rintro t ⟨⟩
  exact Instant.read?_write isShown_epoch

/-- While the module is enabled, the next session shows the rate that was assigned. -/
theorem exists_rendered_of_assign_rate :
    ∃ s progress, Session.load {} (rateTree ["m"] .empty none) "p.json" = .ok (s, [])
      ∧ execute (assign s epoch "m" "RATE" "20") (rateTree ["m"] .empty none) = (.ok (), progress)
      ∧ ∃ s' missing', Session.load {} progress.tree "p.json" = .ok (s', missing')
        ∧ ∃ q, s'.catalog.parameter "c.h" "RATE" = .ok q ∧ q.rendered = "20" := by
  have hstart : (soleProject ["m"] .empty none).applyTo (rateCatalog "10")
      = ([], rateCatalogOn "10") := by cbv
  have htarget : configurationOf? (rateCatalogOn "10") "m" = some "c.h" := by decide +kernel
  have hset : ((rateCatalogOn "10").setParameter "c.h" "RATE" "20").toOption
      = some (⟨"c.h", "RATE", "10", "20", [], []⟩, rateCatalogOn "20") := by decide +kernel
  have hset := Outcome.toOption_eq_some_iff.1 hset
  have hcapture : (soleProject ["m"] .empty none).capture (rateCatalogOn "20")
      = soleProject ["m"] (.ofList [("c.h", .ofList [("RATE", "20")])]) none := by decide +kernel
  obtain ⟨s, progress, hload, hproject, hcatalog, hrun, htree⟩ :=
    exists_assign_rate hstart htarget hset (by decide +kernel) hcapture
  rw [← hcatalog] at htarget hset
  have hold : s.catalog.parameter "c.h" "RATE" = .ok (rate "10") :=
    hcatalog ▸ parameter_rateCatalog "10"
  have hp : (rateCatalogOn "20").parameter "c.h" "RATE" = .ok (rate "20") :=
    parameter_rateCatalog "20"
  have hsame : FindsSame {} (rateTree ["m"] .empty none) s.project progress.tree
      (s.project.reopened "p.json") := by
    rw [hproject, htree]
    exact findsSame_rateTree
  exact ⟨s, progress, hload, hrun, exists_rendered_of_assign hload hrun htarget hset hold hp
    isShown_epoch hsame (fun _ => by decide +kernel) (fun _ => rfl) (by decide +kernel)⟩

/-- Without an enabled module, the next session shows the rate of the header. -/
theorem assign_rate_lost :
    ∃ s progress s' c change, Session.load {} (rateTree [] .empty none) "p.json" = .ok (s, [])
      ∧ execute (assign s epoch "m" "RATE" "20") (rateTree [] .empty none) = (.ok (), progress)
      ∧ s.catalog.setParameter "c.h" "RATE" "20" = .ok (change, c)
      ∧ c.parameter "c.h" "RATE" = .ok (rate "20")
      ∧ Session.load {} progress.tree "p.json" = .ok (s', [])
      ∧ s'.catalog.parameter "c.h" "RATE" = .ok (rate "10")
      ∧ (rate "20").rendered ≠ (rate "10").rendered := by
  have hstart : ∀ savedAt, (soleProject [] .empty savedAt).applyTo (rateCatalog "10")
      = ([], rateCatalog "10") := fun _ => by cbv
  have htarget : configurationOf? (rateCatalog "10") "m" = some "c.h" := by decide +kernel
  have hset : ((rateCatalog "10").setParameter "c.h" "RATE" "20").toOption
      = some (⟨"c.h", "RATE", "10", "20", [], []⟩, rateCatalog "20") := by decide +kernel
  have hset := Outcome.toOption_eq_some_iff.1 hset
  have hcapture : (soleProject [] .empty none).capture (rateCatalog "20")
      = soleProject [] .empty none := by decide +kernel
  obtain ⟨s, progress, hload, -, hcatalog, hrun, htree⟩ :=
    exists_assign_rate (hstart none) htarget hset (by decide +kernel) hcapture
  obtain ⟨files, hload'⟩ := load_rateTree read?_write_epoch (hstart (some epoch))
  exact ⟨s, progress, _, _, _, hload, hrun, hcatalog ▸ hset, parameter_rateCatalog _,
    htree ▸ hload', parameter_rateCatalog _, by decide +kernel⟩

end Command

end Configurator
