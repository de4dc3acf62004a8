import Configurator.NameMap

/-!
# Sets of names

A finite set of names, listed in increasing order. As for maps the order is part of the type, so sets
with the same members are equal (`NameSet.ext_mem`).
-/

namespace Configurator

structure NameSet where
  toMap : NameMap Unit
  deriving DecidableEq, Inhabited

namespace NameSet

def empty : NameSet :=
  ⟨.empty⟩

instance : EmptyCollection NameSet := ⟨empty⟩

def toList (s : NameSet) : List String :=
  s.toMap.keys

instance : Repr NameSet := ⟨fun s n => reprPrec s.toList n⟩

def contains (s : NameSet) (name : String) : Bool :=
  s.toMap.contains name

instance : Membership String NameSet := ⟨fun s name => s.contains name = true⟩

instance (name : String) (s : NameSet) : Decidable (name ∈ s) :=
  inferInstanceAs (Decidable (s.contains name = true))

def insert (s : NameSet) (name : String) : NameSet :=
  ⟨s.toMap.insert name ()⟩

def erase (s : NameSet) (name : String) : NameSet :=
  ⟨s.toMap.erase name⟩

def ofList (names : List String) : NameSet :=
  names.foldl insert empty

def isEmpty (s : NameSet) : Bool :=
  s.toMap.isEmpty

def size (s : NameSet) : Nat :=
  s.toMap.size

def union (s t : NameSet) : NameSet :=
  t.toList.foldl insert s

theorem mem_iff {name : String} {s : NameSet} : name ∈ s ↔ s.contains name = true := Iff.rfl

@[simp] theorem not_mem_empty (name : String) : name ∉ empty := by
  simp [mem_iff, contains, NameMap.contains, empty]

@[simp] theorem mem_toList {name : String} {s : NameSet} : name ∈ s.toList ↔ name ∈ s :=
  NameMap.mem_keys_iff

theorem mem_insert {name other : String} {s : NameSet} :
    other ∈ s.insert name ↔ other = name ∨ other ∈ s := by
  simp only [mem_iff, contains, NameMap.contains, insert, NameMap.get?_insert]
  by_cases h : name = other
  · simp [h]
  · simp [h, Ne.symm h]

theorem mem_erase {name other : String} {s : NameSet} :
    other ∈ s.erase name ↔ other ≠ name ∧ other ∈ s := by
  simp only [mem_iff, contains, NameMap.contains, erase, NameMap.get?_erase]
  by_cases h : name = other
  · simp [h]
  · simp [h, Ne.symm h]

theorem mem_foldl_insert {name : String} {names : List String} {s : NameSet} :
    name ∈ names.foldl insert s ↔ name ∈ s ∨ name ∈ names := by
  induction names generalizing s with
  | nil => simp
  | cons n ns ih =>
    rw [List.foldl_cons, ih, mem_insert, List.mem_cons]
    constructor
    · rintro ((h | h) | h)
      · exact .inr (.inl h)
      · exact .inl h
      · exact .inr (.inr h)
    · rintro (h | h | h)
      · exact .inl (.inr h)
      · exact .inl (.inl h)
      · exact .inr h

@[simp] theorem mem_ofList {name : String} {names : List String} :
    name ∈ ofList names ↔ name ∈ names := by
  simp [ofList, mem_foldl_insert]

theorem mem_union {name : String} {s t : NameSet} : name ∈ s.union t ↔ name ∈ s ∨ name ∈ t := by
  simp [union, mem_foldl_insert]

theorem sorted_toList (s : NameSet) : s.toList.Pairwise (· < ·) :=
  s.toMap.sorted_keys

/-- Sets with the same members are equal. -/
theorem ext_mem {s t : NameSet} (h : ∀ name, name ∈ s ↔ name ∈ t) : s = t := by
  have : s.toMap = t.toMap := NameMap.ext_get? fun name => by
    have hm := h name
    simp only [mem_iff, contains, NameMap.contains] at hm
    cases hs : s.toMap.get? name <;> cases ht : t.toMap.get? name <;> simp_all
  cases s
  cases t
  simp_all

end NameSet

end Configurator
