import Configurator.FileIndex
import Configurator.Proofs.NameMap
import Mathlib.Data.List.Induction

/-!
# What an index of files answers

A listing is sorted and holds the files below the root that no pattern excludes (`sorted_listed`,
`mem_listed_iff`). An index keeps one, answers by pattern, and paths by name, and fills each of them at
another moment. All that it keeps comes from one listing (`FileIndex.Coherent`), so that every answer is what
comes directly from the listing of the tree as it was when an answer first needed one since the index
was made or invalidated, however the tree has changed since (`FileIndex.ask_run`).
-/

namespace Configurator

namespace FileIndex

variable {index : FileIndex} {tree : FileTree} {all : List String}

/-! ## What is listed -/

/-- A listing is in increasing order. -/
theorem sorted_listed (index : FileIndex) (tree : FileTree) :
    (index.listed tree).Pairwise (· ≤ ·) := by
  have hsorted : (index.listed tree).Pairwise fun path other => decide (path ≤ other) = true := by
    refine List.pairwise_mergeSort (fun a b c => ?_) (fun a b => ?_) _
    · simpa using String.le_trans
    · simpa using String.le_total a b
  exact hsorted.imp of_decide_eq_true

/-- A listing holds the files below the root, as often as they are there, that no pattern excludes. -/
theorem listed_perm (index : FileIndex) (tree : FileTree) :
    (index.listed tree).Perm (((tree.filesBelow index.root).map withSlashes).filter
      fun path => !index.exclude.any (·.admits path)) :=
  List.mergeSort_perm _ _

theorem mem_listed_iff {path : String} :
    path ∈ index.listed tree ↔ (∃ file ∈ tree.filesBelow index.root, withSlashes file = path)
      ∧ ∀ glob ∈ index.exclude, glob.admits path = false := by
  rw [(listed_perm index tree).mem_iff, List.mem_filter, List.mem_map]
  simp

/-- What is listed depends on nothing but the files below the root and on what is excluded. -/
theorem listed_congr {index' : FileIndex} {tree' : FileTree}
    (hbelow : tree'.filesBelow index'.root = tree.filesBelow index.root)
    (hexclude : index'.exclude = index.exclude) : index'.listed tree' = index.listed tree := by
  unfold listed
  rw [hbelow, hexclude]

/-! ## One listing -/

/-- Whether an index goes by a listing: it lists that, and if it has answers by name, these are from
that. -/
structure GoesBy (index : FileIndex) (tree : FileTree) (all : List String) : Prop where
  listing : (index.files tree).1 = all
  byName : index.byName.isEmpty = true ∨ index.byName = groupByName all

theorem goesBy_new (root : String) (exclude : List String) (tree : FileTree) :
    (new root exclude).GoesBy tree ((new root exclude).listed tree) :=
  ⟨rfl, .inl rfl⟩

/-- Listing the tree leaves an index with the same listing. -/
theorem GoesBy.files (h : index.GoesBy tree all) : (index.files tree).2.GoesBy tree all := by
  obtain ⟨hlisting, hnames⟩ := h
  unfold FileIndex.files at hlisting ⊢
  cases hlisted : index.listing with
  | some paths =>
      rw [hlisted] at hlisting
      exact ⟨by unfold FileIndex.files; rwa [hlisted], hnames⟩
  | none =>
      rw [hlisted] at hlisting
      exact ⟨hlisting, hnames⟩

/-- What an index lists does not depend on its answers. -/
theorem files_withAnswers (index : FileIndex) (tree : FileTree) (found byName : NameMap (List String)) :
    (files { index with found, byName } tree).1 = (index.files tree).1 := by
  unfold files
  cases index.listing <;> rfl

theorem GoesBy.insert (h : index.GoesBy tree all) (pattern : String) (paths : List String) :
    GoesBy { index with found := index.found.insert pattern paths } tree all :=
  ⟨(files_withAnswers index tree _ _).trans h.listing, h.byName⟩

theorem GoesBy.find (h : index.GoesBy tree all) (pattern : String) :
    (index.find tree pattern).2.GoesBy tree all := by
  unfold FileIndex.find
  cases index.found.get? pattern with
  | some paths => exact h
  | none =>
      cases Glob.parse? pattern with
      | none => exact h.insert pattern []
      | some glob => exact h.files.insert pattern _

/-- The paths with a file name, in the order of the list. -/
theorem get?_groupByName (paths : List String) (name : String) :
    ((groupByName paths).get? name).getD [] = paths.filter (nameOf · = name) := by
  induction paths using List.reverseRecOn with
  | nil => rfl
  | append_singleton paths path ih =>
      have hlast : groupByName (paths ++ [path]) = (groupByName paths).insert (nameOf path)
          (((groupByName paths).get? (nameOf path)).getD [] ++ [path]) := by
        rw [groupByName, List.foldl_append]
        rfl
      rw [hlast, NameMap.get?_insert, List.filter_append]
      by_cases hname : nameOf path = name
      · subst hname
        rw [if_pos rfl, Option.getD_some, ih]
        simp
      · rw [if_neg hname, ih]
        simp [hname]

/-- What is found under a name are the listed paths with that file name. -/
theorem GoesBy.findNamed (h : index.GoesBy tree all) (name : String) :
    (index.findNamed tree name).1 = all.filter (nameOf · = name)
      ∧ (index.findNamed tree name).2.GoesBy tree all := by
  unfold FileIndex.findNamed
  dsimp only
  cases hempty : index.byName.isEmpty with
  | true =>
      rw [if_pos rfl, h.listing]
      exact ⟨get?_groupByName all name,
        (files_withAnswers _ tree _ _).trans h.files.listing, .inr rfl⟩
  | false =>
      rw [if_neg Bool.false_ne_true, h.byName.resolve_left (by simp [hempty])]
      exact ⟨get?_groupByName all name, h⟩

/-! ## Questions and answers -/

/-- What an index is asked. -/
inductive Request where
  | find (pattern : String)
  | findNamed (name : String)
  | count
  | isEmpty
  deriving DecidableEq, Repr

inductive Answer where
  | paths (paths : List String)
  | number (n : Nat)
  | truth (b : Bool)
  deriving DecidableEq, Repr

/-- What an index answers, with the index as it is then. -/
def ask (index : FileIndex) (tree : FileTree) : Request → Answer × FileIndex
  | .find pattern => ((index.find tree pattern).map .paths id)
  | .findNamed name => ((index.findNamed tree name).map .paths id)
  | .count => ((index.count tree).map .number id)
  | .isEmpty => ((index.isEmpty tree).map .truth id)

/-- The paths of a listing that match a pattern; none if it is malformed. -/
def matching (all : List String) (pattern : String) : List String :=
  match Glob.parse? pattern with
  | some glob => all.filter glob.admits
  | none => []

theorem matching_subset (all : List String) (pattern : String) : matching all pattern ⊆ all := by
  unfold matching
  cases Glob.parse? pattern with
  | none => exact List.nil_subset _
  | some glob => exact List.filter_subset_self _

theorem matching_filter (all : List String) (p : String → Bool) (pattern : String) :
    matching (all.filter p) pattern = (matching all pattern).filter p := by
  unfold matching
  cases Glob.parse? pattern with
  | none => rfl
  | some glob => exact List.filter_comm _ _ _

namespace Request

/-- The answer that comes directly from a listing. -/
def answerFrom (all : List String) : Request → Answer
  | .find pattern => .paths (matching all pattern)
  | .findNamed name => .paths (all.filter (nameOf · = name))
  | .count => .number all.length
  | .isEmpty => .truth all.isEmpty

/-- Whether a listing is needed for the answer. -/
def needsListing : Request → Bool
  | .find pattern => (Glob.parse? pattern).isSome
  | _ => true

end Request

/-! ## What an index keeps -/

/-- Whether all that an index keeps comes from its listing. Without one it only keeps that malformed
patterns match nothing. -/
structure Coherent (index : FileIndex) : Prop where
  found : ∀ pattern paths, index.found.get? pattern = some paths →
    paths = matching (index.listing.getD []) pattern
      ∧ (index.listing = none → (Request.find pattern).needsListing = false)
  byName : index.byName.isEmpty = true
    ∨ ∃ all, index.listing = some all ∧ index.byName = groupByName all

theorem coherent_invalidate (index : FileIndex) : index.invalidate.Coherent :=
  ⟨nofun, .inl rfl⟩

theorem coherent_new (root : String) (exclude : List String) : (new root exclude).Coherent :=
  coherent_invalidate (new root exclude)

theorem files_fst (index : FileIndex) (tree : FileTree) :
    (index.files tree).1 = index.listing.getD (index.listed tree) := by
  unfold files
  cases index.listing <;> rfl

theorem files_snd (index : FileIndex) (tree : FileTree) :
    (index.files tree).2 = { index with listing := some (index.files tree).1 } := by
  unfold files
  obtain ⟨root, exclude, listing, found, byName⟩ := index
  cases listing <;> rfl

theorem Coherent.goesBy (h : index.Coherent) (tree : FileTree) :
    index.GoesBy tree (index.files tree).1 := by
  refine ⟨rfl, h.byName.imp_right ?_⟩
  rintro ⟨all, hall, hnames⟩
  rwa [files_fst, hall, Option.getD_some]

/-- Listing the tree keeps what was answered. -/
theorem Coherent.files (h : index.Coherent) (tree : FileTree) : (index.files tree).2.Coherent := by
  rw [files_snd, files_fst]
  obtain ⟨hfound, hnames⟩ := h
  cases hlisting : index.listing with
  | some all =>
      rw [hlisting] at hfound hnames
      exact ⟨fun pattern paths hpaths => ⟨(hfound pattern paths hpaths).1, fun hnone => by cases hnone⟩,
        hnames⟩
  | none =>
      rw [hlisting] at hfound hnames
      refine ⟨fun pattern paths hpaths => ⟨?_, fun hnone => by cases hnone⟩, .inl ?_⟩
      · obtain ⟨hmatching, hmalformed⟩ := hfound pattern paths hpaths
        have hnone : Glob.parse? pattern = none := by simpa [Request.needsListing] using hmalformed rfl
        rw [hmatching, matching, matching, hnone]
      · exact hnames.resolve_right fun ⟨_, hall, _⟩ => by cases hall

/-- Whether an index is what another one has become by an answer in a tree, which needed a listing or
not. -/
structure Follows (index index' : FileIndex) (tree : FileTree) (needed : Bool) : Prop where
  coherent : index'.Coherent
  listing : index'.listing = if needed then some (index.files tree).1 else index.listing
  listed : index'.listed = index.listed

/-- An answer leaves the listing that the next one goes by. -/
theorem Follows.files_fst {index' : FileIndex} {needed : Bool}
    (h : index.Follows index' tree needed) : (index'.files tree).1 = (index.files tree).1 := by
  rw [FileIndex.files_fst, h.listing, h.listed]
  cases needed with
  | true => rfl
  | false => exact (FileIndex.files_fst index tree).symm

theorem Coherent.insert (h : index.Coherent) (pattern : String)
    (hneeds : index.listing = none → (Request.find pattern).needsListing = false) :
    Coherent { index with
      found := index.found.insert pattern (matching (index.listing.getD []) pattern) } := by
  refine ⟨fun other paths hpaths => ?_, h.byName⟩
  dsimp only at hpaths ⊢
  rw [NameMap.get?_insert] at hpaths
  split at hpaths
  · next heq =>
    subst heq
    exact ⟨(Option.some.inj hpaths).symm, hneeds⟩
  · exact h.found other paths hpaths

theorem Coherent.follows_files (h : index.Coherent) (tree : FileTree) :
    index.Follows (index.files tree).2 tree true := by
  refine ⟨h.files tree, ?_, ?_⟩ <;> rw [files_snd] <;> rfl

/-- What is found by a pattern are the listed paths that match, whether they are looked for or
remembered. -/
theorem Coherent.find (h : index.Coherent) (tree : FileTree) (pattern : String) :
    (index.find tree pattern).1 = matching (index.files tree).1 pattern
      ∧ index.Follows (index.find tree pattern).2 tree (Request.find pattern).needsListing := by
  have hmalformed : (Request.find pattern).needsListing = false →
      ∀ all, matching all pattern = [] := by
    intro hneeds all
    have hnone : Glob.parse? pattern = none := by simpa [Request.needsListing] using hneeds
    rw [matching, hnone]
  unfold FileIndex.find
  cases hfound : index.found.get? pattern with
  | some paths =>
      dsimp only
      obtain ⟨rfl, hneeds⟩ := h.found pattern paths hfound
      cases hlisting : index.listing with
      | some all =>
          have hfiles : (index.files tree).1 = all := by rw [files_fst, hlisting, Option.getD_some]
          refine ⟨by rw [hfiles, Option.getD_some], h, ?_, rfl⟩
          rw [hfiles, hlisting, ite_self]
      | none =>
          refine ⟨by rw [hmalformed (hneeds hlisting), hmalformed (hneeds hlisting)], h, ?_, rfl⟩
          rw [hneeds hlisting]
          rfl
  | none =>
      cases hglob : Glob.parse? pattern with
      | none =>
          have hneeds : (Request.find pattern).needsListing = false := by
            simp [Request.needsListing, hglob]
          have hinsert := h.insert pattern fun _ => hneeds
          rw [hmalformed hneeds] at hinsert
          refine ⟨(hmalformed hneeds _).symm, hinsert, ?_, rfl⟩
          rw [hneeds]
          rfl
      | some glob =>
          have hneeds : (Request.find pattern).needsListing = true := by
            simp [Request.needsListing, hglob]
          obtain ⟨hcoherent, hlisting, hlisted⟩ := h.follows_files tree
          have hmatching : (index.files tree).1.filter glob.admits
              = matching (index.files tree).1 pattern := by
            rw [matching, hglob]
          have hinsert := hcoherent.insert pattern fun hnone => by
            rw [hlisting] at hnone
            cases hnone
          have hall : (index.files tree).2.listing.getD [] = (index.files tree).1 := by
            rw [hlisting]
            rfl
          rw [hall, ← hmatching] at hinsert
          refine ⟨hmatching, hinsert, ?_, hlisted⟩
          rw [hneeds]
          exact hlisting

theorem Coherent.findNamed (h : index.Coherent) (tree : FileTree) (name : String) :
    (index.findNamed tree name).1 = (index.files tree).1.filter (nameOf · = name)
      ∧ index.Follows (index.findNamed tree name).2 tree true := by
  refine ⟨((h.goesBy tree).findNamed name).1, ?_⟩
  obtain ⟨hcoherent, hlisting, hlisted⟩ := h.follows_files tree
  unfold FileIndex.findNamed
  dsimp only
  split
  · refine ⟨⟨hcoherent.found, .inr ⟨_, hlisting, rfl⟩⟩, hlisting, hlisted⟩
  · next hnames =>
    obtain ⟨all, hall, -⟩ := h.byName.resolve_left hnames
    refine ⟨h, ?_, rfl⟩
    rw [files_fst, hall, Option.getD_some, if_pos rfl]

/-- A coherent index answers as its listing does, and stays coherent. -/
theorem Coherent.ask (h : index.Coherent) (tree : FileTree) (r : Request) :
    (index.ask tree r).1 = r.answerFrom (index.files tree).1
      ∧ index.Follows (index.ask tree r).2 tree r.needsListing := by
  cases r with
  | find pattern =>
      obtain ⟨hanswer, hfollows⟩ := h.find tree pattern
      exact ⟨congrArg Answer.paths hanswer, hfollows⟩
  | findNamed name =>
      obtain ⟨hanswer, hfollows⟩ := h.findNamed tree name
      exact ⟨congrArg Answer.paths hanswer, hfollows⟩
  | count => exact ⟨rfl, h.follows_files tree⟩
  | isEmpty =>
      refine ⟨congrArg Answer.truth ?_, h.follows_files tree⟩
      show decide ((index.files tree).1.length = 0) = (index.files tree).1.isEmpty
      rw [Bool.eq_iff_iff, decide_eq_true_iff, List.length_eq_zero_iff, List.isEmpty_iff]

/-! ## Runs -/

/-- What happens to an index and to the files around it. -/
inductive Event where
  /-- The files are changed in any way. -/
  | change (tree : FileTree)
  | ask (r : Request)
  | invalidate

/-- The index and the files after an event. -/
def step : FileIndex × FileTree → Event → FileIndex × FileTree
  | (index, _), .change tree => (index, tree)
  | (index, tree), .ask r => ((index.ask tree r).2, tree)
  | (index, tree), .invalidate => (index.invalidate, tree)

def run (state : FileIndex × FileTree) (events : List Event) : FileIndex × FileTree :=
  events.foldl step state

namespace Event

/-- The files after an event. -/
def changed (tree : FileTree) : Event → FileTree
  | .change tree => tree
  | _ => tree

def treeAfter (start : FileTree) (events : List Event) : FileTree :=
  events.foldl changed start

/-- Whether an event neither needs a listing nor drops one. -/
def IsQuiet : Event → Prop
  | .change _ => True
  | .ask r => r.needsListing = false
  | .invalidate => False

/-- Whether a tree is the one that answers come from after some events: as it was when an answer first
needed a listing since the beginning or since the index was invalidated last. -/
def IsBasis (start : FileTree) (events : List Event) (tree : FileTree) : Prop :=
  ∃ past quiet r later, events = past ++ quiet ++ .ask r :: later
    ∧ (past = [] ∨ past.getLast? = some .invalidate)
    ∧ (∀ e ∈ quiet, e.IsQuiet)
    ∧ r.needsListing = true
    ∧ .invalidate ∉ later
    ∧ tree = treeAfter start (past ++ quiet)

/-- The same with the events taken one by one. -/
def basisStep : Option FileTree × FileTree → Event → Option FileTree × FileTree
  | (basis, _), .change tree => (basis, tree)
  | (basis, tree), .ask r => (if r.needsListing then some (basis.getD tree) else basis, tree)
  | (_, tree), .invalidate => (none, tree)

def basis (start : FileTree) (events : List Event) : Option FileTree × FileTree :=
  events.foldl basisStep (none, start)

end Event

namespace Event

variable {start : FileTree} {past quiet later events : List Event}

theorem basis_concat (start : FileTree) (events : List Event) (e : Event) :
    basis start (events ++ [e]) = basisStep (basis start events) e := by
  rw [basis, List.foldl_append]
  rfl

theorem treeAfter_concat (start : FileTree) (events : List Event) (e : Event) :
    treeAfter start (events ++ [e]) = changed (treeAfter start events) e := by
  rw [treeAfter, List.foldl_append]
  rfl

theorem basis_snd (start : FileTree) (events : List Event) :
    (basis start events).2 = treeAfter start events := by
  induction events using List.reverseRecOn with
  | nil => rfl
  | append_singleton events e ih =>
      rw [basis_concat, treeAfter_concat, ← ih]
      cases e <;> rfl

theorem basis_of_past (h : past = [] ∨ past.getLast? = some .invalidate) :
    (basis start past).1 = none := by
  rcases h with rfl | h
  · rfl
  · obtain ⟨before, rfl⟩ := List.getLast?_eq_some_iff.1 h
    rw [basis_concat]
    rfl

theorem basis_append_quiet (h : ∀ e ∈ quiet, e.IsQuiet) :
    (basis start (events ++ quiet)).1 = (basis start events).1 := by
  induction quiet using List.reverseRecOn with
  | nil => rw [List.append_nil]
  | append_singleton quiet e ih =>
      rw [← List.append_assoc, basis_concat, ← ih fun e he => h e (List.mem_append_left _ he)]
      have he := h e (by simp)
      cases e with
      | change tree => rfl
      | ask r => exact if_neg (by simp [show r.needsListing = false from he])
      | invalidate => exact he.elim

theorem basis_append_later {tree : FileTree} (h : .invalidate ∉ later)
    (hbasis : (basis start events).1 = some tree) :
    (basis start (events ++ later)).1 = some tree := by
  induction later using List.reverseRecOn with
  | nil => rwa [List.append_nil]
  | append_singleton later e ih =>
      rw [List.mem_append, not_or] at h
      have hbefore := ih h.1
      rw [← List.append_assoc, basis_concat]
      cases e with
      | change tree => exact hbefore
      | ask r =>
          rw [basisStep, hbefore, Option.getD_some, ite_self]
      | invalidate => exact absurd (List.mem_singleton.2 rfl) h.2

/-- As long as no answer has needed a listing, nothing but quiet events lies behind. -/
theorem exists_quiet_of_basis (h : (basis start events).1 = none) :
    ∃ past quiet, events = past ++ quiet ∧ (past = [] ∨ past.getLast? = some .invalidate)
      ∧ ∀ e ∈ quiet, e.IsQuiet := by
  induction events using List.reverseRecOn with
  | nil => exact ⟨[], [], rfl, .inl rfl, by simp⟩
  | append_singleton events e ih =>
      rw [basis_concat] at h
      have hquiet : (basis start events).1 = none → e.IsQuiet → ∃ past quiet,
          events ++ [e] = past ++ quiet ∧ (past = [] ∨ past.getLast? = some .invalidate)
            ∧ ∀ e ∈ quiet, e.IsQuiet := by
        intro hnone he
        obtain ⟨past, quiet, rfl, hpast, hquiet⟩ := ih hnone
        refine ⟨past, quiet ++ [e], by rw [List.append_assoc], hpast, fun other hother => ?_⟩
        rcases List.mem_append.1 hother with hother | hother
        · exact hquiet other hother
        · rwa [List.mem_singleton.1 hother]
      cases e with
      | change tree => exact hquiet h trivial
      | ask r =>
          rw [basisStep] at h
          split at h
          · cases h
          · next hneeds => exact hquiet h (by simpa [IsQuiet] using hneeds)
      | invalidate => exact ⟨events ++ [.invalidate], [], by simp, .inr (by simp), by simp⟩

/-- There is at most one tree that answers come from, and it is found by taking events one by one. -/
theorem isBasis_iff {tree : FileTree} :
    IsBasis start events tree ↔ (basis start events).1 = some tree := by
  constructor
  · rintro ⟨past, quiet, r, later, rfl, hpast, hquiet, hneeds, hlater, rfl⟩
    rw [List.append_cons]
    refine basis_append_later hlater ?_
    rw [basis_concat, basisStep, if_pos hneeds, basis_append_quiet hquiet, basis_of_past hpast,
      basis_snd]
    rfl
  · intro h
    induction events using List.reverseRecOn with
    | nil => cases h
    | append_singleton events e ih =>
        rw [basis_concat] at h
        -- an event that leaves the tree as it is comes behind the others
        have hlater : (basis start events).1 = some tree → e ≠ .invalidate →
            IsBasis start (events ++ [e]) tree := by
          intro hbefore he
          obtain ⟨past, quiet, r, later, rfl, hpast, hquiet, hneeds, hlater, htree⟩ := ih hbefore
          refine ⟨past, quiet, r, later ++ [e], by simp, hpast, hquiet, hneeds, ?_, htree⟩
          simpa [hlater] using he.symm
        cases e with
        | change tree' => exact hlater h (by simp)
        | ask r =>
            rw [basisStep] at h
            split at h
            · next hneeds =>
              cases hbefore : (basis start events).1 with
              | some before =>
                  rw [hbefore] at h
                  exact hlater (hbefore.trans h) (by simp)
              | none =>
                  rw [hbefore, Option.getD_none, basis_snd] at h
                  obtain ⟨past, quiet, rfl, hpast, hquiet⟩ := exists_quiet_of_basis hbefore
                  exact ⟨past, quiet, r, [], rfl, hpast, hquiet, hneeds, by simp,
                    (Option.some.inj h).symm⟩
            · exact hlater h (by simp)
        | invalidate => cases h

end Event

variable {root : String} {exclude : List String} {start : FileTree}

theorem run_concat (state : FileIndex × FileTree) (events : List Event) (e : Event) :
    run state (events ++ [e]) = step (run state events) e := by
  rw [run, List.foldl_append]
  rfl

/-- Whatever happens, an index is coherent, and lists the tree that answers come from. -/
theorem coherent_run (root : String) (exclude : List String) (start : FileTree)
    (events : List Event) :
    (run (new root exclude, start) events).2 = (Event.basis start events).2
      ∧ (run (new root exclude, start) events).1.Coherent
      ∧ (run (new root exclude, start) events).1.listing
        = (Event.basis start events).1.map (new root exclude).listed
      ∧ (run (new root exclude, start) events).1.listed = (new root exclude).listed := by
  induction events using List.reverseRecOn with
  | nil => exact ⟨rfl, coherent_new root exclude, rfl, rfl⟩
  | append_singleton events e ih =>
      rw [run_concat, Event.basis_concat]
      obtain ⟨htree, hcoherent, hlisting, hlisted⟩ := ih
      generalize run (new root exclude, start) events = state at *
      obtain ⟨index, tree⟩ := state
      dsimp only at htree hcoherent hlisting hlisted
      cases e with
      | change tree' => exact ⟨rfl, hcoherent, hlisting, hlisted⟩
      | ask r =>
          obtain ⟨-, hfollows⟩ := hcoherent.ask tree r
          refine ⟨htree, hfollows.coherent, hfollows.listing.trans ?_, hfollows.listed.trans hlisted⟩
          rw [Event.basisStep, files_fst, hlisting, hlisted, htree]
          cases r.needsListing with
          | false => rfl
          | true => cases (Event.basis start events).1 <;> rfl
      | invalidate => exact ⟨htree, coherent_invalidate index, rfl, hlisted⟩

/-- Whatever has happened to an index and to the files, each answer that needs a listing comes directly
from the listing of one tree: the tree as it was when an answer first needed that since the index was
made or invalidated. A malformed pattern matches nothing. -/
theorem ask_run (root : String) (exclude : List String) (start : FileTree) (events : List Event)
    (r : Request) :
    (r.needsListing = true → ∃ tree,
        (∀ other, Event.IsBasis start (events ++ [.ask r]) other ↔ other = tree)
          ∧ (ask (run (new root exclude, start) events).1
              (run (new root exclude, start) events).2 r).1
            = r.answerFrom ((new root exclude).listed tree))
      ∧ (∀ pattern, r = .find pattern → Glob.parse? pattern = none →
        (ask (run (new root exclude, start) events).1
          (run (new root exclude, start) events).2 r).1 = .paths []) := by
  obtain ⟨htree, hcoherent, hlisting, hlisted⟩ := coherent_run root exclude start events
  obtain ⟨hanswer, -⟩ := hcoherent.ask (run (new root exclude, start) events).2 r
  refine ⟨fun hneeds => ?_, ?_⟩
  · refine ⟨(Event.basis start events).1.getD (Event.basis start events).2, fun other => ?_, ?_⟩
    · rw [Event.isBasis_iff, Event.basis_concat, Event.basisStep, if_pos hneeds, Option.some.injEq]
      exact eq_comm
    · rw [hanswer, files_fst, hlisting, hlisted, htree]
      cases (Event.basis start events).1 <;> rfl
  · rintro pattern rfl hmalformed
    rw [hanswer, Request.answerFrom, matching, hmalformed]

/-- A tree with two drivers and a test. -/
def driverTree : FileTree :=
  { entries := .ofList [("/s", .directory), ("/s/drv", .directory),
      ("/s/drv/ser.c", .file (.text "")), ("/s/drv/spi.c", .file (.text "")),
      ("/s/drv/test", .directory), ("/s/drv/test/ser.c", .file (.text ""))]
    workingDir := [] }

/-- The drivers come while an index goes by the listing of an empty tree. Once it is invalidated and lists
them, it still finds them when all files are gone. -/
def driverEvents : List Event :=
  [.ask .isEmpty, .change driverTree, .ask (.findNamed "ser.c"), .invalidate, .ask (.find "["),
    .ask .count, .change default]

theorem listed_driverTree :
    (new "s" ["drv/test/**"]).listed driverTree = ["drv/ser.c", "drv/spi.c"] := by
  have hpaths : ((driverTree.filesBelow "s").map withSlashes).filter
      (fun path => !(new "s" ["drv/test/**"]).exclude.any (·.admits path))
        = ["drv/ser.c", "drv/spi.c"] := by
    decide +kernel
  show List.mergeSort (List.filter _ ((driverTree.filesBelow "s").map withSlashes)) _ = _
  rw [hpaths]
  exact List.mergeSort_of_pairwise (by decide)

/-- What is found is the driver of the tree as it was, and not the test. -/
theorem ask_run_driverEvents :
    (ask (run (new "s" ["drv/test/**"], default) driverEvents).1
        (run (new "s" ["drv/test/**"], default) driverEvents).2 (.findNamed "ser.c")).1
      = .paths ["drv/ser.c"] := by
  obtain ⟨hanswer, -⟩ := ask_run "s" ["drv/test/**"] default driverEvents (.findNamed "ser.c")
  obtain ⟨tree, hbasis, hanswer⟩ := hanswer rfl
  have hmalformed : (Request.find "[").needsListing = false := by decide +kernel
  have htree : Event.IsBasis default (driverEvents ++ [.ask (.findNamed "ser.c")]) driverTree :=
    ⟨driverEvents.take 4, [.ask (.find "[")], .count, [.change default, .ask (.findNamed "ser.c")],
      rfl, .inr rfl, by simpa [Event.IsQuiet] using hmalformed, rfl, by simp, rfl⟩
  rw [hanswer, ← (hbasis driverTree).1 htree, listed_driverTree]
  decide +kernel

end FileIndex

end Configurator
