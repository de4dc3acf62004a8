import Configurator.Path
import Mathlib.Data.List.Basic

/-!
# Joined paths and file names

Joining puts a slash between two paths where there is none yet (`Path.join_eq`), so that of three paths
the first two or the last two may be joined first (`Path.join_join`). The file name of a path is its last
part, if that is a name (`Path.fileName?_of_splitOn`).
-/

namespace Configurator.Path

/-- What stands between a directory and a path that is joined to it. -/
def separator (base : String) : String :=
  if base.toList.getLast? = some '/' then "" else "/"

theorem join_eq {base path : String} (hpath : isAbsolute path = false) (hbase : base ≠ "") :
    join base path = base ++ separator base ++ path := by
  unfold join separator
  rw [if_neg (by simp [hpath, hbase])]
  split <;> simp

theorem join_of_isAbsolute {path : String} (h : isAbsolute path = true) (base : String) :
    join base path = path :=
  if_pos (.inl h)

theorem join_empty (path : String) : join "" path = path :=
  if_pos (.inr rfl)

theorem isAbsolute_append {front : String} (h : front ≠ "") (back : String) :
    isAbsolute (front ++ back) = isAbsolute front := by
  unfold isAbsolute
  rw [String.toList_append, List.head?_append_of_ne_nil _ fun hnil => h (String.toList_eq_nil_iff.1 hnil)]

theorem separator_append {back : String} (h : back ≠ "") (front : String) :
    separator (front ++ back) = separator back := by
  unfold separator
  rw [String.toList_append, List.getLast?_append_of_ne_nil _ fun hnil => h (String.toList_eq_nil_iff.1 hnil)]

theorem separator_append_separator (base : String) : separator (base ++ separator base) = "" := by
  unfold separator
  split
  · next h => simp [h]
  · simp

/-- Paths can be joined from either end. -/
theorem join_join (a b c : String) : join (join a b) c = join a (join b c) := by
  by_cases hc : isAbsolute c = true
  · rw [join_of_isAbsolute hc, join_of_isAbsolute hc, join_of_isAbsolute hc]
  rw [Bool.not_eq_true] at hc
  by_cases ha : a = ""
  · rw [ha, join_empty, join_empty]
  by_cases hb : b = ""
  · have hempty : isAbsolute "" = false := rfl
    rw [hb, join_empty, join_eq hempty ha, join_eq hc (by simp [ha]), join_eq hc ha]
    simp [separator_append_separator]
  have hjoin := join_eq hc hb
  cases hbabs : isAbsolute b with
  | true =>
      have habs : isAbsolute (join b c) = true := by
        rw [hjoin, String.append_assoc, isAbsolute_append hb, hbabs]
      rw [join_of_isAbsolute hbabs, join_of_isAbsolute habs]
  | false =>
      have hrel : isAbsolute (join b c) = false := by
        rw [hjoin, String.append_assoc, isAbsolute_append hb, hbabs]
      rw [join_eq hbabs ha, join_eq hrel ha, join_eq hc (by simp [hb]), separator_append hb, hjoin]
      simp [String.append_assoc]

/-- The parts of a joined path end in those of what is joined. -/
theorem exists_splitOn_join (base : String) : ∃ front, ∀ path, isAbsolute path = false →
    (join base path).toList.splitOn '/' = front ++ path.toList.splitOn '/' := by
  by_cases hbase : base = ""
  · exact ⟨[], fun path _ => by rw [hbase, join_empty, List.nil_append]⟩
  · obtain ⟨stem, hstem⟩ : ∃ stem, (base ++ separator base).toList = stem ++ ['/'] := by
      unfold separator
      split
      · next hlast =>
        obtain ⟨stem, hstem⟩ := List.getLast?_eq_some_iff.1 hlast
        exact ⟨stem, by simp [hstem]⟩
      · exact ⟨base.toList, by simp⟩
    refine ⟨stem.splitOn '/', fun path hpath => ?_⟩
    rw [join_eq hpath hbase, String.toList_append, hstem, List.append_assoc, List.singleton_append,
      List.splitOn_append_cons_self]

theorem isAbsolute_join {base path : String} (hpath : isAbsolute path = false) :
    isAbsolute (join base path) = isAbsolute base := by
  by_cases hbase : base = ""
  · rw [hbase, join_empty, hpath]
    rfl
  · rw [join_eq hpath hbase, String.append_assoc, isAbsolute_append hbase]

/-! ## File names -/

/-- A last part that counts gives the last piece. -/
theorem exists_getLast?_piecesOf {part : List Char} {c : Component} (h : componentOf? part = some c)
    (front : List (List Char)) (start : Nat) :
    ∃ first last, (piecesOf start (front ++ [part])).getLast? = some ⟨c, first, last⟩ := by
  induction front generalizing start with
  | nil => exact ⟨start, start + part.length, by simp [piecesOf, h]⟩
  | cons first front ih =>
      obtain ⟨a, b, hlast⟩ := ih (start + first.length + 1)
      refine ⟨a, b, ?_⟩
      rw [List.cons_append, piecesOf]
      cases componentOf? first with
      | none => exact hlast
      | some other =>
          dsimp only
          rw [List.getLast?_cons, hlast, Option.getD_some]

/-- The file name of a path is its last part, if that is a name. -/
theorem fileName?_of_splitOn {path : String} {front : List (List Char)} {part : List Char}
    (hsplit : path.toList.splitOn '/' = front ++ [part])
    (hpart : componentOf? part = some (.name part)) : fileName? path = some (String.ofList part) := by
  have hbehind : ∀ (piece : Piece) (first : List Char) (rest : List (List Char)) (start : Nat),
      first :: rest = front ++ [part] → rest ≠ [] →
      ∃ a b, (piece :: piecesOf start rest).getLast? = some ⟨.name part, a, b⟩ := by
    intro piece first rest start hrest hne
    cases front with
    | nil => exact absurd (List.cons.inj hrest).2 hne
    | cons _ front =>
        obtain ⟨a, b, hlast⟩ := exists_getLast?_piecesOf hpart front start
        obtain rfl : rest = front ++ [part] := (List.cons.inj hrest).2
        rw [List.getLast?_cons, hlast]
        exact ⟨a, b, rfl⟩
  obtain ⟨a, b, hlast⟩ : ∃ a b, (pieces path.toList).getLast? = some ⟨.name part, a, b⟩ := by
    unfold pieces
    split
    · next rest hpath =>
      rw [hpath, List.splitOn_cons_eq_if_modifyHead, if_pos (beq_self_eq_true _)] at hsplit
      exact hbehind _ _ _ 1 hsplit (List.splitOn_ne_nil _ _)
    · split
      · next rest hdot =>
        rw [hdot] at hsplit
        refine hbehind _ _ rest 2 hsplit fun hnil => ?_
        -- a path that is only a dot has no name
        rw [hnil, ← List.nil_append [['.']]] at hsplit
        rw [← (List.append_singleton_inj.1 hsplit).2] at hpart
        cases hpart
      · rw [hsplit]
        exact exists_getLast?_piecesOf hpart front 0
  unfold fileName?
  rw [hlast]

/-- Whether a part of a path is a plain name. -/
def IsName (part : List Char) : Prop :=
  part ≠ [] ∧ part ≠ ['.'] ∧ part ≠ ['.', '.'] ∧ '/' ∉ part

instance : DecidablePred IsName := fun part =>
  inferInstanceAs (Decidable (part ≠ [] ∧ part ≠ ['.'] ∧ part ≠ ['.', '.'] ∧ '/' ∉ part))

theorem IsName.ne_nil {part : List Char} (h : IsName part) : part ≠ [] :=
  h.1

theorem IsName.ne_dot {part : List Char} (h : IsName part) : part ≠ ['.'] :=
  h.2.1

theorem IsName.slash {part : List Char} (h : IsName part) : '/' ∉ part :=
  h.2.2.2

theorem slash_not_mem_of_mem_splitOn {part cs : List Char} (h : part ∈ cs.splitOn '/') :
    '/' ∉ part := by
  induction cs generalizing part with
  | nil =>
      obtain rfl : part = [] := by simpa using h
      exact List.not_mem_nil
  | cons c cs ih =>
      rw [List.splitOn_cons_eq_if_modifyHead] at h
      split at h
      · rcases List.mem_cons.1 h with rfl | h
        · exact List.not_mem_nil
        · exact ih h
      · next hc =>
        cases hsplit : cs.splitOn '/' with
        | nil => exact absurd hsplit (List.splitOn_ne_nil _ _)
        | cons first rest =>
            rw [hsplit] at h ih
            rcases List.mem_cons.1 h with rfl | h
            · intro hmem
              rcases List.mem_cons.1 hmem with rfl | hmem
              · exact hc rfl
              · exact ih List.mem_cons_self hmem
            · exact ih (List.mem_cons_of_mem _ h)

theorem componentOf?_eq_name_iff {part text : List Char} :
    componentOf? part = some (.name text)
      ↔ part = text ∧ part ≠ [] ∧ part ≠ ['.'] ∧ part ≠ ['.', '.'] := by
  unfold componentOf?
  split
  · next h => rcases h with rfl | rfl <;> simp
  · split
    · next h => simp [h]
    · next h h' =>
      rw [not_or] at h
      simp [h, h']

theorem IsName.componentOf? {part : List Char} (h : IsName part) :
    Path.componentOf? part = some (.name part) :=
  componentOf?_eq_name_iff.2 ⟨rfl, h.1, h.2.1, h.2.2.1⟩

theorem exists_part_of_mem_piecesOf {piece : Piece} {parts : List (List Char)} {start : Nat}
    (h : piece ∈ piecesOf start parts) : ∃ part ∈ parts, componentOf? part = some piece.component := by
  induction parts generalizing start with
  | nil => cases h
  | cons part parts ih =>
      unfold piecesOf at h
      dsimp only at h
      split at h
      · next c hc =>
        rcases List.mem_cons.1 h with rfl | h
        · exact ⟨part, List.mem_cons_self, hc⟩
        · obtain ⟨other, hother, hcomponent⟩ := ih h
          exact ⟨other, List.mem_cons_of_mem _ hother, hcomponent⟩
      · obtain ⟨other, hother, hcomponent⟩ := ih h
        exact ⟨other, List.mem_cons_of_mem _ hother, hcomponent⟩

/-- Names in a path are parts of it. -/
theorem isName_of_mem_pieces {piece : Piece} {cs text : List Char} (h : piece ∈ pieces cs)
    (hname : piece.component = .name text) : IsName text := by
  obtain ⟨part, hpart, hcomponent⟩ :
      ∃ part ∈ cs.splitOn '/', componentOf? part = some piece.component := by
    unfold pieces at h
    split at h
    · next rest =>
      rw [List.splitOn_cons_eq_if_modifyHead, if_pos (beq_self_eq_true _)]
      rcases List.mem_cons.1 h with rfl | h
      · cases hname
      · obtain ⟨part, hpart, hcomponent⟩ := exists_part_of_mem_piecesOf h
        exact ⟨part, List.mem_cons_of_mem _ hpart, hcomponent⟩
    · split at h
      · next rest hdot =>
        rcases List.mem_cons.1 h with rfl | h
        · cases hname
        · obtain ⟨part, hpart, hcomponent⟩ := exists_part_of_mem_piecesOf h
          exact ⟨part, hdot ▸ List.mem_cons_of_mem _ hpart, hcomponent⟩
      · exact exists_part_of_mem_piecesOf h
  rw [hname] at hcomponent
  obtain ⟨rfl, hempty, hdot, hdots⟩ := componentOf?_eq_name_iff.1 hcomponent
  exact ⟨hempty, hdot, hdots, slash_not_mem_of_mem_splitOn hpart⟩

/-- The file name of a path is a plain name. -/
theorem isName_of_fileName? {path name : String} (h : fileName? path = some name) :
    IsName name.toList := by
  unfold fileName? at h
  split at h
  · next text start stop hlast =>
    obtain rfl := Option.some.inj h
    rw [String.toList_ofList]
    exact isName_of_mem_pieces (List.mem_of_getLast? hlast) rfl
  · cases h

end Configurator.Path
