import Configurator.Proofs.Catalog.Parameters

/-!
# Looking up dependents

What a module depends on is looked up forwards, in its definition and in the values that parameters
have now. What depends on a name is looked up backwards: in the index, where every flag is listed that
could ever require the name, and of these only the ones count that are set now. In every state of a
built catalogue both ways give the same answer (`mem_effectiveDeps_iff_dependent`).
-/

namespace Configurator.Catalog

variable {c : Catalog}

/-! ## Both ways -/

/-- The gates of a name that are set are the set flags, in the headers that modules are bound to, that
require it. -/
theorem IsBuilt.mem_conditionalGates_isSet (hbuilt : c.IsBuilt) {gate : ParamRef} {dep : String} :
    gate ∈ c.conditionalGates dep ∧ c.isSet gate = true
      ↔ ∃ m p, c.module? gate.module = some m ∧ m.configuration = some gate.configuration
          ∧ c.parameter gate.configuration gate.name = .ok p ∧ p.isSet = true
          ∧ dep ∈ p.conditionalDeps := by
  rw [hbuilt.mem_conditionalGates, isSet_iff]
  constructor
  · rintro ⟨⟨m, h, p, hm, hpath, hh, hget, -, hdep⟩, q, hq, hset⟩
    have hp := parameter_eq_ok_iff.2 ⟨h, hh, hget⟩
    obtain rfl : p = q := Except.ok.inj (hp.symm.trans hq)
    exact ⟨m, p, hm, hpath, hp, hset, hdep⟩
  · rintro ⟨m, p, hm, hpath, hp, hset, hdep⟩
    obtain ⟨h, hh, hget⟩ := parameter_eq_ok_iff.1 hp
    exact ⟨⟨m, h, p, hm, hpath, hh, hget, Parameter.type_of_isSet hset, hdep⟩, p, hp, hset⟩

/-- A module depends on a name when it is one of its dependents or has a set flag among its gates. -/
theorem IsBuilt.mem_effectiveDeps_iff_dependent (hbuilt : c.IsBuilt) {user dep : String} :
    dep ∈ c.effectiveDeps user
      ↔ user ∈ c.hardDependents dep
        ∨ ∃ gate ∈ c.conditionalGates dep, gate.module = user ∧ c.isSet gate = true := by
  rw [mem_effectiveDeps_iff, hbuilt.mem_hardDependents]
  constructor
  · rintro ⟨m, hm, hlisted | ⟨path, name, p, hpath, hp, hset, hdep⟩⟩
    · exact .inl ⟨m, hm, hlisted⟩
    · let gate : ParamRef := ⟨user, path, name⟩
      have hgate : gate ∈ c.conditionalGates dep ∧ c.isSet gate = true :=
        hbuilt.mem_conditionalGates_isSet.2 ⟨m, p, hm, hpath, hp, hset, hdep⟩
      exact .inr ⟨gate, hgate.1, rfl, hgate.2⟩
  · rintro (⟨m, hm, hlisted⟩ | ⟨gate, hgate, rfl, hset⟩)
    · exact ⟨m, hm, .inl hlisted⟩
    · obtain ⟨m, p, hm, hpath, hp, hset, hdep⟩ :=
        hbuilt.mem_conditionalGates_isSet.1 ⟨hgate, hset⟩
      exact ⟨m, hm, .inr ⟨_, _, p, hpath, hp, hset, hdep⟩⟩

/-! ## Runs -/

/-- Whether the index of a catalogue answers for its present state. -/
structure Indexed (c : Catalog) : Prop where
  /-- It is the one that would be built anew. -/
  fresh : c.index = .build c.modules c.headers
  /-- What depends on a name backwards is what depends on it forwards. -/
  dependents : ∀ user dep, dep ∈ c.effectiveDeps user
    ↔ user ∈ c.hardDependents dep
      ∨ ∃ gate ∈ c.conditionalGates dep, gate.module = user ∧ c.isSet gate = true
  /-- No dependent is listed twice. -/
  nodup : ∀ dep, (c.hardDependents dep).Nodup

theorem IsBuilt.indexed (hbuilt : c.IsBuilt) : c.Indexed where
  fresh := hbuilt.index_eq
  dependents _ _ := hbuilt.mem_effectiveDeps_iff_dependent
  nodup := hbuilt.nodup_hardDependents

/-- Whatever is built, and whatever is done to it: the index answers for the state that is reached. -/
theorem indexed_run_build (sourceRoot : String) (modules : List Module) (headers : List Header)
    (lists : List ValueList) (ops : List Operation) :
    ((build sourceRoot modules headers lists).run ops).Indexed :=
  ((isBuilt_build sourceRoot modules headers lists).run ops).indexed

end Configurator.Catalog
