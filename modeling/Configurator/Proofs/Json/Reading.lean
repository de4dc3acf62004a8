import Configurator.Json.Parser

/-!
# What the readers of JSON read

The readers pair what they read with a proof that the rest is shorter. `taken?` leaves that aside, and
each reader is given by one equation.
-/

namespace Configurator.Json

/-- What was read, and what follows it. -/
def taken? {α : Type} {cs : List Char} (r : Option (Read α cs)) : Option (α × List Char) :=
  r.map fun r => (r.item, r.rest)

@[simp] theorem taken?_some {α : Type} {cs : List Char} (r : Read α cs) :
    taken? (some r) = some (r.item, r.rest) :=
  rfl

@[simp] theorem taken?_none {α : Type} {cs : List Char} :
    taken? (none : Option (Read α cs)) = none :=
  rfl

theorem taken?_within {α β : Type} {cs ds : List Char} (r : Option (Read α ds)) (f : α → β)
    (h : ds.length ≤ cs.length) :
    taken? (r.map fun r => (r.map f).within h) = (taken? r).map (Prod.map f id) := by
  cases r <;> rfl

theorem taken?_scalar? (cs : List Char) {j : Json} {rest : List Char}
    (hread : (word? cs).or ((number? cs).map (Prod.map Json.number id)) = some (j, rest))
    (hrest : rest.length < cs.length) : taken? (scalar? cs) = some (j, rest) := by
  unfold scalar?
  cases hword : word? cs with
  | some found =>
      rw [hword, Option.some_or] at hread
      cases hread
      simp [hrest]
  | none =>
      rw [hword, Option.none_or] at hread
      obtain ⟨⟨n, rest'⟩, hnumber, heq⟩ := Option.map_eq_some_iff.1 hread
      cases heq
      have hrest' : rest'.length < cs.length := hrest
      simp [hnumber, hrest']

theorem taken?_value? (cs : List Char) :
    taken? (value? cs) =
      match skipSign? '"' cs with
      | some inside =>
        (stringBody inside).map fun (s, rest) => (.string (s.map String.ofList), rest)
      | none =>
        match skipSign? '[' cs with
        | some inside =>
          match skipSign? ']' inside with
          | some rest => some (.array [], rest)
          | none => (taken? (items? inside)).map (Prod.map Json.array id)
        | none =>
          match skipSign? '{' cs with
          | some inside =>
            match skipSign? '}' inside with
            | some rest => some (.object [], rest)
            | none => (taken? (members? inside)).map (Prod.map Json.object id)
          | none => taken? (scalar? (skipBlanks cs)) := by
  rw [value?]
  split
  · next inside hq =>
    split
    · next s rest hs => simp [hq, hs]
    · next hs => simp [hq, hs]
  · next hq =>
    split
    · next inside ha =>
      dsimp only
      split
      · next rest he => simp [hq, ha, he]
      · next he => simp [hq, ha, he, taken?_within]
    · next ha =>
      split
      · next inside ho =>
        dsimp only
        split
        · next rest he => simp [hq, ha, ho, he]
        · next he => simp [hq, ha, ho, he, taken?_within]
      · next ho =>
        simp only [hq, ha, ho]
        cases scalar? (skipBlanks cs) <;> rfl

theorem taken?_items? (cs : List Char) :
    taken? (items? cs) =
      (taken? (value? cs)).bind fun (j, behind) =>
        match skipSign? ']' behind with
        | some rest => some ([j], rest)
        | none =>
          (skipSign? ',' behind).bind fun more =>
            (taken? (items? more)).map (Prod.map (j :: ·) id) := by
  rw [items?]
  split
  · next hv => simp [hv]
  · next j behind h hv =>
    dsimp only
    split
    · next rest he => simp [hv, he]
    · next he =>
      split
      · next hc => simp [hv, he, hc]
      · next more hc => simp [hv, he, hc, taken?_within]

theorem taken?_members? (cs : List Char) :
    taken? (members? cs) =
      (skipSign? '"' cs).bind fun inside =>
        (stringBody inside).bind fun (name, afterName) =>
          (skipSign? ':' afterName).bind fun toValue =>
            (taken? (value? toValue)).bind fun (j, behind) =>
              match skipSign? '}' behind with
              | some rest => some ([(name.map String.ofList, j)], rest)
              | none =>
                (skipSign? ',' behind).bind fun more =>
                  (taken? (members? more)).map (Prod.map ((name.map String.ofList, j) :: ·) id) := by
  rw [members?]
  split
  · next hq => simp [hq]
  · next inside hq =>
    split
    · next hs => simp [hq, hs]
    · next name afterName hs =>
      split
      · next hd => simp [hq, hs, hd]
      · next toValue hd =>
        dsimp only
        split
        · next hv => simp [hq, hs, hd, hv]
        · next j behind h hv =>
          split
          · next rest he => simp [hq, hs, hd, hv, he]
          · next he =>
            split
            · next hc => simp [hq, hs, hd, hv, he, hc]
            · next more hc => simp [hq, hs, hd, hv, he, hc, taken?_within]

theorem parse?_eq {text : String} {j : Json} {rest : List Char}
    (h : taken? (value? text.toList) = some (j, rest)) (hrest : skipBlanks rest = []) :
    parse? text = some j := by
  obtain ⟨⟨item, behind, hbehind⟩, hvalue, heq⟩ := Option.map_eq_some_iff.1 h
  cases heq
  simp [parse?, hvalue, hrest]

end Configurator.Json
