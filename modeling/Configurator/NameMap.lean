/-!
# Maps from names

A map from names to anything, kept as its entries in increasing order of the names. The order is part
of the type, so a map has one representation: two maps that agree on every name are equal
(`NameMap.ext_get?`), and listing a map needs no sorting.
-/

namespace Configurator

structure NameMap (α : Type) where
  entries : List (String × α)
  sorted : entries.Pairwise (·.1 < ·.1)

namespace NameMap

variable {α β : Type}

/-! ## Entry lists -/

/-- The value of the first entry with a name. -/
def lookup (name : String) : List (String × α) → Option α
  | [] => none
  | (k, v) :: es => if k = name then some v else lookup name es

/-- Puts an entry at its place, instead of the one with the same name if there is one. -/
def insertEntry (name : String) (value : α) : List (String × α) → List (String × α)
  | [] => [(name, value)]
  | (k, v) :: es =>
    if name < k then (name, value) :: (k, v) :: es
    else if name = k then (name, value) :: es
    else (k, v) :: insertEntry name value es

theorem mem_insertEntry {name : String} {value : α} {e : String × α} {es : List (String × α)}
    (h : e ∈ insertEntry name value es) : e = (name, value) ∨ e ∈ es := by
  induction es with
  | nil => exact .inl (by simpa [insertEntry] using h)
  | cons x es ih =>
    unfold insertEntry at h
    split at h
    · rcases List.mem_cons.1 h with h | h
      · exact .inl h
      · exact .inr h
    · split at h
      · rcases List.mem_cons.1 h with h | h
        · exact .inl h
        · exact .inr (List.mem_cons_of_mem _ h)
      · rcases List.mem_cons.1 h with h | h
        · exact .inr (h ▸ List.mem_cons_self)
        · exact (ih h).imp_right (List.mem_cons_of_mem _)

theorem lt_of_not_lt_of_ne {a b : String} (h : ¬ a < b) (hne : a ≠ b) : b < a := by
  rcases Decidable.em (b < a) with h' | h'
  · exact h'
  · exact absurd (String.le_antisymm (String.not_lt.1 h') (String.not_lt.1 h)) hne

theorem sorted_insertEntry {name : String} {value : α} {es : List (String × α)}
    (h : es.Pairwise (·.1 < ·.1)) : (insertEntry name value es).Pairwise (·.1 < ·.1) := by
  induction es with
  | nil => simp [insertEntry]
  | cons x es ih =>
    obtain ⟨hx, hes⟩ := List.pairwise_cons.1 h
    unfold insertEntry
    split
    case isTrue hlt =>
      refine List.pairwise_cons.2 ⟨fun e he => ?_, h⟩
      rcases List.mem_cons.1 he with rfl | he
      · exact hlt
      · exact String.lt_trans hlt (hx e he)
    case isFalse hlt =>
      split
      case isTrue heq => exact List.pairwise_cons.2 ⟨fun e he => heq ▸ hx e he, hes⟩
      case isFalse hne =>
        refine List.pairwise_cons.2 ⟨fun e he => ?_, ih hes⟩
        rcases mem_insertEntry he with rfl | he
        · exact lt_of_not_lt_of_ne hlt hne
        · exact hx e he

theorem lookup_insertEntry (name other : String) (value : α) (es : List (String × α)) :
    lookup other (insertEntry name value es)
      = if name = other then some value else lookup other es := by
  induction es with
  | nil => simp [insertEntry, lookup]
  | cons x es ih =>
    unfold insertEntry
    split
    · simp [lookup]
    · split
      · subst name
        by_cases h : x.1 = other <;> simp [lookup, h]
      · next hne =>
        by_cases h : x.1 = other
        · have : name ≠ other := fun he => hne (he.trans h.symm)
          simp [lookup, h, this]
        · simp [lookup, h, ih]

theorem lookup_filter_ne (name other : String) (es : List (String × α)) :
    lookup other (es.filter (·.1 ≠ name)) = if name = other then none else lookup other es := by
  induction es with
  | nil => simp [lookup]
  | cons x es ih =>
    by_cases hx : x.1 = name
    · rw [List.filter_cons_of_neg (by simp [hx]), ih]
      by_cases h : name = other
      · simp [h]
      · have : x.1 ≠ other := fun he => h (hx ▸ he)
        simp [lookup, this]
    · rw [List.filter_cons_of_pos (by simp [hx]), lookup, ih, lookup]
      by_cases h : x.1 = other
      · have : name ≠ other := fun he => hx (h.trans he.symm)
        simp [h, this]
      · simp [h]

theorem lookup_eq_none_of_forall {name : String} {es : List (String × α)}
    (h : ∀ e ∈ es, e.1 ≠ name) : lookup name es = none := by
  induction es with
  | nil => rfl
  | cons x es ih =>
    have hx := h x List.mem_cons_self
    simp [lookup, hx, ih fun e he => h e (List.mem_cons_of_mem _ he)]

theorem mem_of_lookup {name : String} {value : α} {es : List (String × α)}
    (h : lookup name es = some value) : (name, value) ∈ es := by
  induction es with
  | nil => simp [lookup] at h
  | cons x es ih =>
    by_cases hx : x.1 = name
    · simp only [lookup, hx, if_true, Option.some.injEq] at h
      subst hx h
      exact List.mem_cons_self
    · simp only [lookup, hx, if_false] at h
      exact List.mem_cons_of_mem _ (ih h)

theorem lookup_of_mem {name : String} {value : α} {es : List (String × α)}
    (hs : es.Pairwise (·.1 < ·.1)) (h : (name, value) ∈ es) : lookup name es = some value := by
  induction es with
  | nil => simp at h
  | cons x es ih =>
    obtain ⟨hx, hes⟩ := List.pairwise_cons.1 hs
    rcases List.mem_cons.1 h with rfl | h
    · simp [lookup]
    · have hne : x.1 ≠ name := fun he => by
        have := hx _ h
        rw [he] at this
        exact String.lt_irrefl name this
      simp [lookup, hne, ih hes h]

/-! ## Maps -/

def empty : NameMap α :=
  ⟨[], .nil⟩

instance : EmptyCollection (NameMap α) := ⟨empty⟩

instance : Inhabited (NameMap α) := ⟨empty⟩

instance [Repr α] : Repr (NameMap α) := ⟨fun m n => reprPrec m.entries n⟩

instance [DecidableEq α] : DecidableEq (NameMap α) :=
  fun m n => decidable_of_iff (m.entries = n.entries) (by cases m; cases n; simp)

def get? (m : NameMap α) (name : String) : Option α :=
  lookup name m.entries

def contains (m : NameMap α) (name : String) : Bool :=
  (m.get? name).isSome

def insert (m : NameMap α) (name : String) (value : α) : NameMap α :=
  ⟨insertEntry name value m.entries, sorted_insertEntry m.sorted⟩

def erase (m : NameMap α) (name : String) : NameMap α :=
  ⟨m.entries.filter (·.1 ≠ name), m.sorted.filter _⟩

/-- Of entries with one name the last one counts. -/
def ofList (es : List (String × α)) : NameMap α :=
  es.foldl (fun m (name, value) => m.insert name value) empty

def keys (m : NameMap α) : List String :=
  m.entries.map (·.1)

def values (m : NameMap α) : List α :=
  m.entries.map (·.2)

def isEmpty (m : NameMap α) : Bool :=
  m.entries.isEmpty

def size (m : NameMap α) : Nat :=
  m.entries.length

/-- The map with every value changed. -/
def map (f : String → α → β) (m : NameMap α) : NameMap β :=
  ⟨m.entries.map fun (name, value) => (name, f name value), by
    simpa [List.pairwise_map] using m.sorted⟩

/-- The map with the value of one name changed, if there is one. -/
def modify (m : NameMap α) (name : String) (f : α → α) : NameMap α :=
  m.map fun k v => if k = name then f v else v

/-- How many values satisfy `p`. -/
def count (p : α → Bool) (m : NameMap α) : Nat :=
  m.entries.countP fun e => p e.2

@[simp] theorem get?_empty (name : String) : (empty : NameMap α).get? name = none := rfl

theorem get?_insert (m : NameMap α) (name other : String) (value : α) :
    (m.insert name value).get? other = if name = other then some value else m.get? other :=
  lookup_insertEntry name other value m.entries

@[simp] theorem get?_insert_self (m : NameMap α) (name : String) (value : α) :
    (m.insert name value).get? name = some value := by
  simp [get?_insert]

theorem get?_erase (m : NameMap α) (name other : String) :
    (m.erase name).get? other = if name = other then none else m.get? other :=
  lookup_filter_ne name other m.entries

theorem lookup_map (f : String → α → β) (name : String) (es : List (String × α)) :
    lookup name (es.map fun e => (e.1, f e.1 e.2)) = (lookup name es).map (f name) := by
  induction es with
  | nil => rfl
  | cons x es ih =>
    by_cases h : x.1 = name
    · subst h
      simp [lookup]
    · simp [lookup, h, ih]

theorem get?_map (f : String → α → β) (m : NameMap α) (name : String) :
    (m.map f).get? name = (m.get? name).map (f name) :=
  lookup_map f name m.entries

theorem get?_modify (m : NameMap α) (name other : String) (f : α → α) :
    (m.modify name f).get? other
      = if other = name then (m.get? other).map f else m.get? other := by
  rw [modify, get?_map]
  split <;> simp_all

theorem get?_eq_some_iff {m : NameMap α} {name : String} {value : α} :
    m.get? name = some value ↔ (name, value) ∈ m.entries :=
  ⟨mem_of_lookup, lookup_of_mem m.sorted⟩

theorem mem_keys_iff {m : NameMap α} {name : String} :
    name ∈ m.keys ↔ (m.get? name).isSome = true := by
  constructor
  · intro h
    obtain ⟨⟨k, v⟩, he, rfl⟩ := List.mem_map.1 h
    simp [get?_eq_some_iff.2 he]
  · intro h
    obtain ⟨v, hv⟩ := Option.isSome_iff_exists.1 h
    exact List.mem_map.2 ⟨_, get?_eq_some_iff.1 hv, rfl⟩

theorem sorted_keys (m : NameMap α) : m.keys.Pairwise (· < ·) := by
  simpa [keys, List.pairwise_map] using m.sorted

/-- Two sorted entry lists with the same members are the same list. -/
theorem entries_eq_of_mem_iff : ∀ {es fs : List (String × α)},
    es.Pairwise (·.1 < ·.1) → fs.Pairwise (·.1 < ·.1) → (∀ e, e ∈ es ↔ e ∈ fs) → es = fs
  | [], [], _, _, _ => rfl
  | [], f :: fs, _, _, h => absurd ((h f).2 List.mem_cons_self) (by simp)
  | e :: es, [], _, _, h => absurd ((h e).1 List.mem_cons_self) (by simp)
  | e :: es, f :: fs, he, hf, h => by
    obtain ⟨he1, he2⟩ := List.pairwise_cons.1 he
    obtain ⟨hf1, hf2⟩ := List.pairwise_cons.1 hf
    have hef : e = f := by
      rcases List.mem_cons.1 ((h e).1 List.mem_cons_self) with h1 | h1
      · exact h1
      · rcases List.mem_cons.1 ((h f).2 List.mem_cons_self) with h2 | h2
        · exact h2.symm
        · exact absurd (String.lt_trans (hf1 e h1) (he1 f h2)) (String.lt_irrefl _)
    subst hef
    have : es = fs := by
      refine entries_eq_of_mem_iff he2 hf2 fun x => ⟨fun hx => ?_, fun hx => ?_⟩
      · rcases List.mem_cons.1 ((h x).1 (List.mem_cons_of_mem _ hx)) with rfl | hx'
        · exact absurd (he1 x hx) (String.lt_irrefl _)
        · exact hx'
      · rcases List.mem_cons.1 ((h x).2 (List.mem_cons_of_mem _ hx)) with rfl | hx'
        · exact absurd (hf1 x hx) (String.lt_irrefl _)
        · exact hx'
    rw [this]

/-- Maps that agree on every name are equal. -/
theorem ext_get? {m n : NameMap α} (h : ∀ name, m.get? name = n.get? name) : m = n := by
  have : m.entries = n.entries := entries_eq_of_mem_iff m.sorted n.sorted fun ⟨k, v⟩ => by
    rw [← get?_eq_some_iff, ← get?_eq_some_iff, h]
  cases m
  cases n
  simp_all

/-! ## Counting -/

theorem countP_map_le {p : α → Bool} {f : α → α} (hf : ∀ v, p (f v) = true → p v = true)
    (name : String) (es : List (String × α)) :
    (es.map fun e => (e.1, if e.1 = name then f e.2 else e.2)).countP (fun e => p e.2)
      ≤ es.countP fun e => p e.2 := by
  rw [List.countP_map]
  refine List.countP_mono_left fun e _ h => ?_
  simp only [Function.comp_apply] at h
  split at h
  · exact hf _ h
  · exact h

/-- Changing a counted value into one that does not count lowers the count. -/
theorem count_modify_lt {p : α → Bool} {f : α → α} (hf : ∀ v, p (f v) = false) {m : NameMap α}
    {name : String} {v : α} (hv : m.get? name = some v) (hp : p v = true) :
    (m.modify name f).count p < m.count p := by
  have key : ∀ es : List (String × α), (name, v) ∈ es →
      (es.map fun e => (e.1, if e.1 = name then f e.2 else e.2)).countP (fun e => p e.2)
        < es.countP fun e => p e.2 := by
    intro es hmem
    induction es with
    | nil => simp at hmem
    | cons x es ih =>
      have hle := countP_map_le (p := p) (f := f) (fun w h => by simp [hf w] at h) name es
      rcases List.mem_cons.1 hmem with rfl | hmem
      · simp only [List.map_cons, List.countP_cons, if_true, hf, hp] at hle ⊢
        simp only [Bool.false_eq_true, if_false]
        omega
      · have := ih hmem
        by_cases hx : x.1 = name
        · simp only [List.map_cons, List.countP_cons, hx, if_true, hf, Bool.false_eq_true, if_false]
          omega
        · simp only [List.map_cons, List.countP_cons, hx, if_false]
          omega
  exact key m.entries (get?_eq_some_iff.1 hv)

end NameMap

end Configurator
