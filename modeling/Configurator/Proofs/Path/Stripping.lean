import Configurator.Proofs.Path

/-!
# Paths behind a directory

A path that leads on from a directory has the parts of the directory in front and others behind
(`Path.Behind`). Taking the directory off cuts the others out of the text, without the empty parts and
dots around them, so that what is left can be joined to the directory and taken off again
(`Path.exists_stripPrefix?`).
-/

namespace Configurator.Path

variable {base path : String} {parts before middle after : List (List Char)}

/-! ## Parts in their text -/

/-- The text of parts with a slash behind each. -/
def laid (parts : List (List Char)) : List Char :=
  parts.flatMap (· ++ ['/'])

@[simp] theorem laid_nil : laid [] = [] := rfl

@[simp] theorem laid_cons (part : List Char) (parts : List (List Char)) :
    laid (part :: parts) = part ++ '/' :: laid parts := by
  simp [laid]

@[simp] theorem laid_append (front back : List (List Char)) :
    laid (front ++ back) = laid front ++ laid back :=
  List.flatMap_append

theorem length_laid_cons (part : List Char) (parts : List (List Char)) :
    (laid (part :: parts)).length = part.length + 1 + (laid parts).length := by
  simp
  omega

theorem laid_splitOn (cs : List Char) : laid (cs.splitOn '/') = cs ++ ['/'] := by
  induction cs with
  | nil => simp
  | cons c cs ih =>
      rw [List.splitOn_cons_eq_if_modifyHead]
      by_cases hc : c = '/'
      · rw [if_pos (by simp [hc]), laid_cons, ih, hc]
        rfl
      · rw [if_neg (by simp [hc])]
        cases hsplit : cs.splitOn '/' with
        | nil => exact absurd hsplit (List.splitOn_ne_nil _ _)
        | cons first rest =>
            rw [hsplit, laid_cons] at ih
            rw [List.modifyHead_cons, laid_cons, List.cons_append, ih, List.cons_append]

/-- The text of parts with slashes between them. -/
def textOf (parts : List (List Char)) : List Char :=
  (laid parts).dropLast

theorem laid_eq_textOf (h : parts ≠ []) : laid parts = textOf parts ++ ['/'] := by
  obtain ⟨front, last, rfl⟩ := (List.eq_nil_or_concat' parts).resolve_left h
  rw [textOf, laid_append, laid_cons, laid_nil, ← List.append_assoc, List.dropLast_concat]

theorem splitOn_textOf (hparts : parts ≠ []) (hslash : ∀ part ∈ parts, '/' ∉ part) :
    (textOf parts).splitOn '/' = parts := by
  induction parts with
  | nil => exact absurd rfl hparts
  | cons part parts ih =>
      obtain ⟨hpart, hslash⟩ := List.forall_mem_cons.1 hslash
      by_cases hmore : parts = []
      · rw [hmore, textOf, laid_cons, laid_nil, List.dropLast_concat, List.splitOn_eq_singleton hpart]
      · have htext : textOf (part :: parts) = part ++ '/' :: textOf parts := by
          rw [textOf, laid_cons, laid_eq_textOf hmore, ← List.cons_append, ← List.append_assoc,
            List.dropLast_concat]
        rw [htext, List.splitOn_append_cons_self_of_not_mem hpart, ih hmore hslash]

/-! ## Pieces of parts -/

theorem map_component_piecesOf (start : Nat) (parts : List (List Char)) :
    (piecesOf start parts).map (·.component) = parts.filterMap componentOf? := by
  induction parts generalizing start with
  | nil => rfl
  | cons part parts ih =>
      unfold piecesOf
      cases hpart : componentOf? part <;> simp [hpart, ih]

theorem piecesOf_append (start : Nat) (front back : List (List Char)) :
    piecesOf start (front ++ back)
      = piecesOf start front ++ piecesOf (start + (laid front).length) back := by
  induction front generalizing start with
  | nil => rfl
  | cons part front ih =>
      rw [List.cons_append, piecesOf, piecesOf, ih, length_laid_cons, ← Nat.add_assoc,
        ← Nat.add_assoc]
      cases componentOf? part <;> rfl

/-- Where pieces can be divided, their parts can. -/
theorem exists_of_piecesOf_eq_append {start : Nat} {front back : List Piece}
    (h : piecesOf start parts = front ++ back) :
    ∃ before after, parts = before ++ after ∧ piecesOf start before = front
      ∧ piecesOf (start + (laid before).length) after = back := by
  induction parts generalizing start front with
  | nil =>
      obtain ⟨rfl, rfl⟩ := List.append_eq_nil_iff.1 h.symm
      exact ⟨[], [], rfl, rfl, rfl⟩
  | cons part parts ih =>
      cases front with
      | nil => exact ⟨[], part :: parts, rfl, rfl, h⟩
      | cons piece front =>
          have hlength : ∀ before, start + part.length + 1 + (laid before).length
              = start + (laid (part :: before)).length := fun before => by
            rw [length_laid_cons, ← Nat.add_assoc, ← Nat.add_assoc]
          rw [piecesOf] at h
          cases hpart : componentOf? part with
          | none =>
              rw [hpart] at h
              obtain ⟨before, after, rfl, hbefore, hafter⟩ := ih h
              refine ⟨part :: before, after, rfl, ?_, hlength before ▸ hafter⟩
              rw [piecesOf, hpart, hbefore]
          | some c =>
              rw [hpart] at h
              obtain ⟨rfl, hmore⟩ := List.cons.inj h
              obtain ⟨before, after, rfl, hbefore, hafter⟩ := ih hmore
              refine ⟨part :: before, after, rfl, ?_, hlength before ▸ hafter⟩
              rw [piecesOf, hpart, hbefore]

/-- What the part at the beginning of a path stands for. -/
def frontComponent (part : List Char) : Component :=
  if part = [] then .root
  else if part = ['.'] then .current
  else if part = ['.', '.'] then .parent
  else .name part

/-- The first part of a path always counts. -/
theorem exists_pieces_eq {cs first : List Char} {rest : List (List Char)} (hcs : cs ≠ [])
    (hsplit : cs.splitOn '/' = first :: rest) :
    ∃ stop, pieces cs
      = ⟨frontComponent first, 0, stop⟩ :: piecesOf (first.length + 1) rest := by
  unfold pieces
  split
  · next cs =>
    rw [List.splitOn_cons_eq_if_modifyHead, if_pos (beq_self_eq_true _)] at hsplit
    obtain ⟨rfl, rfl⟩ := List.cons.inj hsplit
    exact ⟨1, rfl⟩
  · next hroot =>
    have hfirst : first ≠ [] := by
      rintro rfl
      have hlaid := laid_splitOn cs
      rw [hsplit, laid_cons, List.nil_append] at hlaid
      cases cs with
      | nil => exact hcs rfl
      | cons c cs => exact hroot cs (by rw [(List.cons.inj hlaid).1])
    rw [hsplit]
    split
    · next hdot =>
      obtain ⟨rfl, rfl⟩ := List.cons.inj hdot
      exact ⟨1, rfl⟩
    · next hdot =>
      have hcurrent : first ≠ ['.'] := fun h => hdot rest (by rw [h])
      have hcomponent : componentOf? first = some (frontComponent first) := by
        unfold componentOf? frontComponent
        simp only [hfirst, hcurrent, if_false, or_self]
        split <;> rfl
      refine ⟨first.length, ?_⟩
      rw [piecesOf, hcomponent, Nat.zero_add]

theorem exists_components_eq (hpath : path ≠ "") :
    ∃ first rest, path.toList.splitOn '/' = first :: rest
      ∧ components path = frontComponent first :: rest.filterMap componentOf? := by
  cases hsplit : path.toList.splitOn '/' with
  | nil => exact absurd hsplit (List.splitOn_ne_nil _ _)
  | cons first rest =>
      obtain ⟨stop, hpieces⟩ :=
        exists_pieces_eq (fun h => hpath (String.toList_eq_nil_iff.1 h)) hsplit
      exact ⟨first, rest, rfl, by rw [components, hpieces, List.map_cons, map_component_piecesOf]⟩

/-! ## Parts behind a directory -/

/-- Whether these are the parts of a path that stand in it behind a directory. -/
def Behind (base path : String) (parts : List (List Char)) : Prop :=
  ∃ front pre, pieces path.toList = front ++ piecesOf pre.length parts
    ∧ front.map (·.component) = components base ∧ path.toList ++ ['/'] = pre ++ laid parts

theorem Behind.components_eq (h : Behind base path parts) :
    components path = components base ++ parts.filterMap componentOf? := by
  obtain ⟨front, pre, hpieces, hfront, -⟩ := h
  rw [components, hpieces, List.map_append, hfront, map_component_piecesOf]

theorem exists_behind (hbase : base ≠ "") (h : components base <+: components path) :
    ∃ parts, (∀ part ∈ parts, '/' ∉ part) ∧ Behind base path parts := by
  obtain ⟨b, bs, -, hcomponents⟩ := exists_components_eq hbase
  have hpath : path ≠ "" := by
    rintro rfl
    rw [hcomponents] at h
    exact List.cons_ne_nil _ _ (List.prefix_nil.1 h)
  cases hsplit : path.toList.splitOn '/' with
  | nil => exact absurd hsplit (List.splitOn_ne_nil _ _)
  | cons first rest =>
      obtain ⟨stop, hpieces⟩ :=
        exists_pieces_eq (fun h => hpath (String.toList_eq_nil_iff.1 h)) hsplit
      obtain ⟨behind, hbehind⟩ := h
      rw [hcomponents, components, hpieces, List.map_cons, List.cons_append] at hbehind
      obtain ⟨hfirst, hrest⟩ := List.cons.inj hbehind
      obtain ⟨front, back, hdivided, hfront, -⟩ := List.map_eq_append_iff.1 hrest.symm
      obtain ⟨before, after, rfl, hbefore, hafter⟩ := exists_of_piecesOf_eq_append hdivided
      refine ⟨after, fun part hpart => ?_,
        ⟨frontComponent first, 0, stop⟩ :: front, laid (first :: before), ?_, ?_, ?_⟩
      · have hmem : part ∈ path.toList.splitOn '/' :=
          hsplit ▸ List.mem_cons_of_mem _ (List.mem_append_right _ hpart)
        exact slash_not_mem_of_mem_splitOn hmem
      · rw [hpieces, hdivided, length_laid_cons, hafter, List.cons_append]
      · rw [List.map_cons, hfront, hcomponents, hfirst]
      · rw [← laid_splitOn, hsplit, ← laid_append, List.cons_append]

/-- The parts of a directory without the empty one behind a last slash. -/
theorem exists_parts_of_base (hbase : base ≠ "") :
    ∃ first rest, laid (first :: rest) = (base ++ separator base).toList
      ∧ (∀ part ∈ first :: rest, '/' ∉ part)
      ∧ components base = frontComponent first :: rest.filterMap componentOf? := by
  obtain ⟨first, rest, hsplit, hcomponents⟩ := exists_components_eq hbase
  have hslash : ∀ part ∈ first :: rest, '/' ∉ part := fun part hpart =>
    slash_not_mem_of_mem_splitOn (hsplit ▸ hpart)
  have hlaid := laid_splitOn base.toList
  rw [hsplit] at hlaid
  unfold separator
  split
  · next hlast =>
    obtain ⟨stem, hstem⟩ := List.getLast?_eq_some_iff.1 hlast
    have hends : first :: rest = stem.splitOn '/' ++ [[]] := by
      rw [← hsplit, hstem, List.splitOn_append_cons_self, List.splitOn_nil]
    cases hfront : stem.splitOn '/' with
    | nil => exact absurd hfront (List.splitOn_ne_nil _ _)
    | cons part parts =>
        rw [hfront] at hends
        obtain ⟨rfl, hrest⟩ := List.cons.inj hends
        refine ⟨first, parts, ?_, fun part hpart => hslash part ?_, ?_⟩
        · rw [← hfront, laid_splitOn, String.append_empty, hstem]
        · rw [hends]
          exact List.mem_append_left _ hpart
        · rw [hcomponents, hrest, List.append_eq, List.filterMap_append]
          simp [componentOf?]
  · exact ⟨first, rest, by rw [hlaid, String.toList_append]; rfl, hslash, hcomponents⟩

theorem behind_join {rel : String} (hbase : base ≠ "") (hrel : isAbsolute rel = false) :
    Behind base (join base rel) (rel.toList.splitOn '/') := by
  obtain ⟨first, rest, hlaid, hslash, hcomponents⟩ := exists_parts_of_base hbase
  have htext : (join base rel).toList = laid (first :: rest) ++ rel.toList := by
    rw [join_eq hrel hbase, String.toList_append, hlaid]
  have hne : (join base rel).toList ≠ [] := by
    rw [htext, laid_cons]
    simp
  have hsplit : (join base rel).toList.splitOn '/' = first :: (rest ++ rel.toList.splitOn '/') := by
    rw [htext, laid_eq_textOf (List.cons_ne_nil _ _), List.append_assoc, List.singleton_append,
      List.splitOn_append_cons_self, splitOn_textOf (List.cons_ne_nil _ _) hslash, List.cons_append]
  obtain ⟨stop, hpieces⟩ := exists_pieces_eq hne hsplit
  refine ⟨⟨frontComponent first, 0, stop⟩ :: piecesOf (first.length + 1) rest,
    laid (first :: rest), ?_, ?_, ?_⟩
  · rw [hpieces, piecesOf_append, length_laid_cons, List.cons_append]
  · rw [List.map_cons, map_component_piecesOf, hcomponents]
  · rw [htext, laid_splitOn, List.append_assoc]

/-! ## Parts that count -/

/-- Whether parts begin and end in ones that count. -/
def IsTrimmed (parts : List (List Char)) : Prop :=
  (∀ part ∈ parts.head?, componentOf? part ≠ none) ∧ ∀ part ∈ parts.getLast?, componentOf? part ≠ none

theorem exists_isTrimmed (parts : List (List Char)) :
    ∃ before middle after, parts = before ++ middle ++ after ∧ IsTrimmed middle
      ∧ (∀ part ∈ before, componentOf? part = none) ∧ ∀ part ∈ after, componentOf? part = none := by
  induction parts with
  | nil => exact ⟨[], [], [], rfl, by simp [IsTrimmed], by simp, by simp⟩
  | cons part parts ih =>
      obtain ⟨before, middle, after, rfl, hmiddle, hbefore, hafter⟩ := ih
      by_cases hpart : componentOf? part = none
      · exact ⟨part :: before, middle, after, rfl, hmiddle, List.forall_mem_cons.2 ⟨hpart, hbefore⟩,
          hafter⟩
      by_cases hempty : middle = []
      · refine ⟨[], [part], before ++ after, by simp [hempty], by simpa [IsTrimmed] using hpart,
          by simp, List.forall_mem_append.2 ⟨hbefore, hafter⟩⟩
      · refine ⟨[], part :: (before ++ middle), after, by simp, ⟨by simpa using hpart, ?_⟩, by simp,
          hafter⟩
        rw [← List.cons_append, List.getLast?_append_of_ne_nil _ hempty]
        exact hmiddle.2

theorem piecesOf_eq_nil (h : ∀ part ∈ parts, componentOf? part = none) (start : Nat) :
    piecesOf start parts = [] := by
  induction parts generalizing start with
  | nil => rfl
  | cons part parts ih =>
      obtain ⟨hpart, hparts⟩ := List.forall_mem_cons.1 h
      rw [piecesOf, hpart]
      exact ih hparts _

/-- Pieces of trimmed parts begin and end where the parts do. -/
theorem exists_piecesOf_of_isTrimmed (hne : parts ≠ []) (h : IsTrimmed parts) (start : Nat) :
    ∃ first last, (piecesOf start parts).head? = some first
      ∧ (piecesOf start parts).getLast? = some last ∧ first.start = start
      ∧ last.stop = start + (textOf parts).length := by
  obtain ⟨first, hfirst, hstart⟩ :
      ∃ first, (piecesOf start parts).head? = some first ∧ first.start = start := by
    cases parts with
    | nil => exact absurd rfl hne
    | cons part parts =>
        obtain ⟨c, hc⟩ := Option.ne_none_iff_exists'.1 (h.1 part rfl)
        exact ⟨⟨c, start, start + part.length⟩, by simp [piecesOf, hc], rfl⟩
  obtain ⟨front, part, rfl⟩ := (List.eq_nil_or_concat' parts).resolve_left hne
  obtain ⟨c, hc⟩ := Option.ne_none_iff_exists'.1 (h.2 part List.getLast?_concat)
  have hlast : piecesOf start (front ++ [part]) = piecesOf start front
      ++ [⟨c, start + (laid front).length, start + (laid front).length + part.length⟩] := by
    rw [piecesOf_append]
    simp [piecesOf, hc]
  refine ⟨first, _, hfirst, by rw [hlast, List.getLast?_concat], hstart, ?_⟩
  have hlength : (textOf (front ++ [part])).length = (laid front).length + part.length := by
    rw [textOf, laid_append, laid_cons, laid_nil, ← List.append_assoc, List.dropLast_concat,
      List.length_append]
  rw [hlength, Nat.add_assoc]

/-! ## Taking a directory off -/

theorem piecesAfter?_eq_some_iff {base path rest : List Piece} :
    piecesAfter? base path = some rest
      ↔ ∃ front, path = front ++ rest
        ∧ front.map (·.component) = base.map (·.component) := by
  induction base generalizing path with
  | nil =>
      rw [piecesAfter?, Option.some_inj]
      constructor
      · rintro rfl
        exact ⟨[], rfl, rfl⟩
      · rintro ⟨front, rfl, hfront⟩
        rw [List.map_eq_nil_iff.1 hfront, List.nil_append]
  | cons b base ih =>
      cases path with
      | nil => simp [piecesAfter?]
      | cons p path =>
          by_cases h : b.component = p.component
          · rw [piecesAfter?, if_pos h, ih]
            constructor
            · rintro ⟨front, rfl, hfront⟩
              exact ⟨p :: front, rfl, by rw [List.map_cons, List.map_cons, hfront, h]⟩
            · rintro ⟨front, hpath, hfront⟩
              cases front with
              | nil => cases hfront
              | cons first front =>
                  obtain ⟨rfl, rfl⟩ := List.cons.inj hpath
                  exact ⟨front, rfl, (List.cons.inj hfront).2⟩
          · rw [piecesAfter?, if_neg h]
            constructor
            · rintro ⟨⟩
            · rintro ⟨front, hpath, hfront⟩
              cases front with
              | nil => cases hfront
              | cons first front =>
                  obtain ⟨rfl, rfl⟩ := List.cons.inj hpath
                  exact absurd (List.cons.inj hfront).1.symm h

theorem prefix_of_stripPrefix? {rel : String} (h : stripPrefix? base path = some rel) :
    components base <+: components path := by
  obtain ⟨rest, hrest, -⟩ := Option.map_eq_some_iff.1 h
  obtain ⟨front, hwhole, hfront⟩ := piecesAfter?_eq_some_iff.1 hrest
  exact ⟨rest.map (·.component), by rw [components, components, hwhole, List.map_append, hfront]⟩

/-- What is left of a path is the text of the parts that count behind the directory. -/
theorem Behind.stripPrefix?_eq (hbase : base ≠ "") (h : Behind base path (before ++ middle ++ after))
    (hmiddle : IsTrimmed middle) (hbefore : ∀ part ∈ before, componentOf? part = none)
    (hafter : ∀ part ∈ after, componentOf? part = none) :
    stripPrefix? base path = some (String.ofList (textOf middle)) := by
  obtain ⟨front, pre, hpieces, hfront, htext⟩ := h
  rw [piecesOf_append, piecesOf_append, piecesOf_eq_nil hbefore, piecesOf_eq_nil hafter,
    List.nil_append, List.append_nil, ← List.length_append] at hpieces
  have hstrip := piecesAfter?_eq_some_iff.2 ⟨front, hpieces, hfront⟩
  rw [stripPrefix?, hstrip, Option.map_some]
  congr 1
  by_cases hempty : middle = []
  · simp [hempty, piecesOf, textOf]
  obtain ⟨first, last, hfirst, hlast, hstart, hstop⟩ :=
    exists_piecesOf_of_isTrimmed hempty hmiddle (pre ++ laid before).length
  have hshorter :
      (piecesOf (pre ++ laid before).length middle).length ≠ (pieces path.toList).length := by
    obtain ⟨b, bs, -, hcomponents⟩ := exists_components_eq hbase
    have hfrontLength := congrArg List.length hfront
    rw [List.length_map, hcomponents, List.length_cons] at hfrontLength
    simp only [hpieces, List.length_append, hfrontLength]
    omega
  -- the text is what stands in front, the middle, a slash and the rest without its last slash
  have htake : path.toList.take last.stop = pre ++ laid before ++ textOf middle := by
    have hcut : (path.toList ++ ['/']).take last.stop = pre ++ laid before ++ textOf middle := by
      rw [htext, laid_append, laid_append, laid_eq_textOf hempty, hstop, ← List.length_append]
      simp [← List.append_assoc, List.take_append]
    have hlength : last.stop ≤ path.toList.length := by
      have := congrArg List.length htext
      rw [laid_append, laid_append, laid_eq_textOf hempty] at this
      simp at this hstop
      omega
    rw [← hcut, List.take_append_of_le_length hlength]
  simp only [hfirst, hlast, if_neg hshorter, htake, hstart]
  rw [List.drop_left]

/-- A path that leads on from a directory is found again once the directory is taken off and put in
front, and what was taken off is the same the next time. -/
theorem exists_stripPrefix? (hbase : base ≠ "") (h : components base <+: components path) :
    ∃ rel, stripPrefix? base path = some rel ∧ isAbsolute rel = false
      ∧ components (join base rel) = components path
      ∧ stripPrefix? base (join base rel) = some rel := by
  obtain ⟨parts, hslash, hbehind⟩ := exists_behind hbase h
  obtain ⟨before, middle, after, rfl, hmiddle, hbefore, hafter⟩ := exists_isTrimmed parts
  have hstrip := hbehind.stripPrefix?_eq hbase hmiddle hbefore hafter
  have hcounted : (before ++ middle ++ after).filterMap componentOf?
      = middle.filterMap componentOf? := by
    simp [List.filterMap_append, List.filterMap_eq_nil_iff.2 hbefore,
      List.filterMap_eq_nil_iff.2 hafter]
  have hcomponents := hbehind.components_eq
  rw [hcounted] at hcomponents
  by_cases hempty : middle = []
  · subst hempty
    have hrejoined : Behind base (join base "") ([[]] ++ [] ++ []) := behind_join hbase rfl
    refine ⟨_, hstrip, rfl, ?_, hrejoined.stripPrefix?_eq hbase hmiddle (by decide) (by simp)⟩
    rw [hcomponents]
    exact hrejoined.components_eq
  · have hparts := splitOn_textOf hempty fun part hpart => hslash part (by simp [hpart])
    have hrelative : isAbsolute (String.ofList (textOf middle)) = false := by
      cases middle with
      | nil => exact absurd rfl hempty
      | cons part middle =>
          have hpart := hmiddle.1 part rfl
          cases part with
          | nil => exact absurd rfl hpart
          | cons c part =>
              have hc : c ≠ '/' := fun hc => hslash (c :: part) (by simp) (hc ▸ List.mem_cons_self)
              rw [isAbsolute, String.toList_ofList, textOf, laid_cons, List.cons_append,
                List.dropLast_cons_of_ne_nil (by simp), List.head?_cons]
              simpa using hc
    have hrejoined := behind_join hbase hrelative
    rw [String.toList_ofList, hparts] at hrejoined
    refine ⟨_, hstrip, hrelative, ?_, ?_⟩
    · rw [hcomponents, hrejoined.components_eq]
    · refine Behind.stripPrefix?_eq hbase ?_ hmiddle (List.forall_mem_nil _) (List.forall_mem_nil _)
      rwa [List.nil_append, List.append_nil]

end Configurator.Path
