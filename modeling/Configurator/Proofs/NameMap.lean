import Mathlib.Data.List.Nodup
import Configurator.NameMap

/-!
# Maps built up from entries

Inserting the entries of a map one by one gives the map again (`ofList_entries`), and insertions under
different names can be exchanged (`insert_comm`).
-/

namespace Configurator.NameMap

variable {α : Type}

theorem insert_comm (m : NameMap α) {k k' : String} (hne : k ≠ k') (v v' : α) :
    (m.insert k v).insert k' v' = (m.insert k' v').insert k v := by
  refine ext_get? fun name => ?_
  simp only [get?_insert]
  by_cases hk : k = name
  · have hk' : k' ≠ name := fun hk' => hne (hk.trans hk'.symm)
    simp [hk, hk']
  · simp [hk]

/-- A change that leaves the value of the name as it is changes nothing. -/
theorem modify_self {m : NameMap α} {name : String} {f : α → α}
    (hf : ∀ v, m.get? name = some v → f v = v) : m.modify name f = m := by
  refine ext_get? fun other => ?_
  rw [get?_modify]
  split
  · next heq =>
    subst heq
    cases hv : m.get? other with
    | none => rfl
    | some v => rw [Option.map_some, hf v hv]
  · rfl

theorem eq_empty_of_isEmpty {m : NameMap α} (h : m.isEmpty = true) : m = .empty := by
  obtain ⟨entries, hsorted⟩ := m
  obtain rfl : entries = [] := List.isEmpty_iff.1 h
  rfl

theorem nodup_keys (m : NameMap α) : (m.entries.map (·.1)).Nodup := by
  refine m.sorted_keys.imp fun hlt heq => ?_
  rw [heq] at hlt
  exact String.lt_irrefl _ hlt

theorem get?_foldl_insert {es : List (String × α)} (hkeys : (es.map (·.1)).Nodup) (m : NameMap α)
    (name : String) :
    (es.foldl (fun m e => m.insert e.1 e.2) m).get? name = (lookup name es).or (m.get? name) := by
  induction es generalizing m with
  | nil => simp [lookup]
  | cons e es ih =>
      rw [List.map_cons, List.nodup_cons] at hkeys
      rw [List.foldl_cons, ih hkeys.2, get?_insert, lookup]
      by_cases he : e.1 = name
      · have hnone : lookup name es = none := lookup_eq_none_of_forall fun x hx hname =>
          hkeys.1 (List.mem_map.2 ⟨x, hx, hname.trans he.symm⟩)
        simp [he, hnone]
      · simp [he]

/-- A map made of a list has nothing that the list does not have. -/
theorem mem_of_get?_ofList {es : List (String × α)} {name : String} {value : α}
    (h : (ofList es).get? name = some value) : (name, value) ∈ es := by
  have key : ∀ m : NameMap α, (es.foldl (fun m e => m.insert e.1 e.2) m).get? name = some value →
      (name, value) ∈ es ∨ m.get? name = some value := by
    clear h
    induction es with
    | nil => exact fun m h => .inr h
    | cons e es ih =>
        intro m hm
        rcases ih (m.insert e.1 e.2) hm with hmem | hget
        · exact .inl (List.mem_cons_of_mem _ hmem)
        · rw [get?_insert] at hget
          split at hget
          · next hname =>
            cases hget
            exact .inl (hname ▸ List.mem_cons_self)
          · exact .inr hget
  exact (key .empty h).resolve_right (by simp)

theorem mem_keys_insert {m : NameMap α} {name other : String} {value : α} :
    other ∈ (m.insert name value).keys ↔ name = other ∨ other ∈ m.keys := by
  rw [mem_keys_iff, mem_keys_iff, get?_insert]
  split <;> simp [*]

theorem mem_keys_ofList {es : List (String × α)} {name : String} :
    name ∈ (ofList es).keys ↔ name ∈ es.map (·.1) := by
  have key : ∀ m : NameMap α, name ∈ (es.foldl (fun m e => m.insert e.1 e.2) m).keys
      ↔ name ∈ es.map (·.1) ∨ name ∈ m.keys := by
    induction es with
    | nil => simp
    | cons e es ih =>
        intro m
        rw [List.foldl_cons, ih, mem_keys_insert, List.map_cons, List.mem_cons]
        tauto
  exact (key .empty).trans (or_iff_left List.not_mem_nil)

/-- An entry that is left out does not show where one with its name is left out as well. -/
theorem filterMap_insertEntry {β : Type} {f : String × α → Option β} {name : String} {value : α}
    {es : List (String × α)} (hnew : f (name, value) = none)
    (hold : ∀ old, (name, old) ∈ es → f (name, old) = none) :
    (insertEntry name value es).filterMap f = es.filterMap f := by
  induction es with
  | nil => simp [insertEntry, hnew]
  | cons e es ih =>
      unfold insertEntry
      split
      · rw [List.filterMap_cons_none hnew]
      · split
        · next heq =>
          subst heq
          rw [List.filterMap_cons_none hnew, List.filterMap_cons_none (hold e.2 List.mem_cons_self)]
        · rw [List.filterMap_cons, List.filterMap_cons,
            ih fun old hmem => hold old (List.mem_cons_of_mem _ hmem)]

theorem ofList_entries (m : NameMap α) : ofList m.entries = m := by
  refine ext_get? fun name => ?_
  rw [ofList, get?_foldl_insert m.nodup_keys, get?_empty, Option.or_none]
  rfl

end Configurator.NameMap
