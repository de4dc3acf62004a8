import Configurator.Project.Descriptor
import Configurator.Proofs.Json.RoundTrip
import Configurator.Proofs.NameMap
import Configurator.Proofs.Outcome

/-!
# Written descriptors are read back

The text of a descriptor holds the whole project (`Project.parse_write`): a field that is left out has
the value that a missing field stands for. The version has to fit in 32 bits, and the time of saving to
be one whose text is read back.
-/

namespace Configurator

open Json (Decoder Fields IsPlain)

/-! ## Records -/

namespace Json

theorem isPlain_record {members : List (String × Json)} (h : ∀ m ∈ members, IsPlain m.2) :
    IsPlain (record members) := by
  refine .object (fun m hm => ?_) fun m hm => ?_
  · obtain ⟨e, -, rfl⟩ := List.mem_map.1 hm
    exact ⟨e.1, rfl⟩
  · obtain ⟨e, he, rfl⟩ := List.mem_map.1 hm
    exact h e he

theorem isPlain_texts (items : List String) : IsPlain (texts items) := by
  refine .array fun j hj => ?_
  obtain ⟨s, -, rfl⟩ := List.mem_map.1 hj
  exact .string s

/-- All fields of a record are found if its names are known and no two of them are the same. -/
theorem fields_record {names : List String} {members : List (String × Json)}
    (hkeys : (members.map (·.1)).Nodup) (hknown : ∀ m ∈ members, m.1 ∈ names) :
    fields names (record members) = .ok members := by
  have hsingle : ∀ name, members.countP (fun m => m.1 = name) ≤ 1 := by
    intro name
    have hcount := List.nodup_iff_count_le_one.1 hkeys name
    rw [List.count, List.countP_map] at hcount
    refine Nat.le_trans (Nat.le_of_eq (List.countP_congr fun m _ => ?_)) hcount
    simp
  have hfind : names.find? (fun name => 1 < members.countP (·.1 = name)) = none := by
    rw [List.find?_eq_none]
    intro name _
    simp [hsingle name]
  refine Outcome.bind_eq_ok_iff.2 ⟨members, Outcome.mapM_eq_ok_iff.2 ?_, ?_⟩
  · rw [List.forall₂_map_left_iff, List.forall₂_same]
    exact fun _ _ => rfl
  · rw [List.filter_eq_self.2]
    · simp only [hfind]
    · intro m hm
      simpa using hknown m hm

theorem decodeMap_record {α : Type} {item : Decoder α} {toJson : α → Json} (m : NameMap α)
    (h : ∀ e ∈ m.entries, item (toJson e.2) = .ok e.2) :
    Decoder.map item (record (m.entries.map fun (name, a) => (name, toJson a))) = .ok m := by
  refine Outcome.bind_eq_ok_iff.2 ⟨m.entries, Outcome.mapM_eq_ok_iff.2 ?_, ?_⟩
  · rw [List.map_map, List.forall₂_map_left_iff, List.forall₂_same]
    exact fun e he => Outcome.bind_eq_ok_iff.2 ⟨e.2, h e he, rfl⟩
  · rw [m.ofList_entries]
    rfl

end Json

theorem decodeTexts_texts (items : List String) : decodeTexts (.texts items) = .ok items := by
  simp only [decodeTexts, Decoder.list, Json.texts, Outcome.mapM_eq_ok_iff,
    List.forall₂_map_left_iff, List.forall₂_same]
  exact fun _ _ => rfl

theorem lookup_cons (key name : String) (j : Json) (fs : Fields) :
    List.lookup key ((name, j) :: fs) = if key = name then some j else List.lookup key fs := by
  by_cases hkey : key = name
  · simp [hkey]
  · rw [List.lookup_cons, beq_false_of_ne hkey, if_neg hkey]

theorem lookup_textsUnlessEmpty (key name : String) (items : List String) :
    (textsUnlessEmpty name items).lookup key
      = if key = name ∧ items ≠ [] then some (.texts items) else none := by
  unfold textsUnlessEmpty
  by_cases hitems : items = []
  · simp [hitems]
  · simp [hitems, lookup_cons]

/-- A list that is left out when it is empty. -/
theorem orElse_texts (items : List String) {fs : Fields} {name : String}
    (h : fs.lookup name = if items = [] then none else some (.texts items)) :
    fs.orElse name [] decodeTexts = .ok items := by
  rw [Fields.orElse, h]
  split
  · next j hj =>
    split at hj
    · cases hj
    · cases hj
      exact decodeTexts_texts items
  · next hj =>
    split at hj
    · next hnil => rw [hnil]
    · cases hj

theorem keys_textsUnlessEmpty_sublist (name : String) (items : List String) :
    ((textsUnlessEmpty name items).map (·.1)).Sublist [name] := by
  unfold textsUnlessEmpty
  split <;> simp

/-- The names of some members are those of a record's fields, in their order, some left out. -/
theorem fields_of_sublist (names : List String) (members : List (String × Json))
    (hnames : names.Nodup) (h : (members.map (·.1)).Sublist names) :
    Json.fields names (.record members) = .ok members :=
  Json.fields_record (hnames.sublist h) fun _ hm => h.subset (List.mem_map_of_mem hm)

theorem isPlain_of_mem_textsUnlessEmpty {name : String} {items : List String} {m : String × Json}
    (hm : m ∈ textsUnlessEmpty name items) : IsPlain m.2 := by
  unfold textsUnlessEmpty at hm
  split at hm
  · cases hm
  · rw [List.mem_singleton.1 hm]
    exact Json.isPlain_texts items

namespace CpuSources

theorem isPlain_toJson (s : CpuSources) : IsPlain s.toJson := by
  refine Json.isPlain_record fun m hm => ?_
  simp only [List.mem_append] at hm
  rcases hm with (((hm | hm) | hm) | hm) | hm <;> exact isPlain_of_mem_textsUnlessEmpty hm

theorem decoder_toJson (s : CpuSources) : decoder s.toJson = .ok s := by
  have hfields := fields_of_sublist ["c", "pgm_c", "cppa", "cxx", "asm"]
    (textsUnlessEmpty "c" s.c ++ textsUnlessEmpty "pgm_c" s.programC
      ++ textsUnlessEmpty "cppa" s.preprocessed ++ textsUnlessEmpty "cxx" s.cxx
      ++ textsUnlessEmpty "asm" s.assembly) (by simp) (by
        simp only [List.map_append]
        exact ((((keys_textsUnlessEmpty_sublist _ _).append
          (keys_textsUnlessEmpty_sublist _ _)).append (keys_textsUnlessEmpty_sublist _ _)).append
          (keys_textsUnlessEmpty_sublist _ _)).append (keys_textsUnlessEmpty_sublist _ _))
  simp only [decoder, toJson, hfields, bind, Except.bind]
  rw [orElse_texts s.c, orElse_texts s.programC,
    orElse_texts s.preprocessed, orElse_texts s.cxx,
    orElse_texts s.assembly]
  · rfl
  all_goals simp [List.lookup_append, lookup_textsUnlessEmpty]

end CpuSources

/-! ## Texts and maps of texts -/

theorem required_of_lookup {α : Type} {fs : Fields} {name : String} {a : α} {j : Json}
    {item : Decoder α} (hitem : item j = .ok a) (h : fs.lookup name = some j) :
    fs.required name item = .ok a := by
  rw [Fields.required, h]
  exact hitem

theorem required_text (s : String) {fs : Fields} {name : String} (h : fs.lookup name = some (.text s)) :
    fs.required name Decoder.string = .ok s :=
  required_of_lookup rfl h

theorem orElse_of_lookup {α : Type} {fs : Fields} {name : String} {default a : α} {j : Json}
    {item : Decoder α} (hitem : item j = .ok a) (h : fs.lookup name = some j) :
    fs.orElse name default item = .ok a := by
  rw [Fields.orElse, h]
  exact hitem

theorem orElse_text (s : String) {fs : Fields} {name default : String}
    (h : fs.lookup name = some (.text s)) : fs.orElse name default Decoder.string = .ok s :=
  orElse_of_lookup rfl h

theorem decodeMap_textMap (m : NameMap String) :
    Json.Decoder.map Decoder.string (textMap m) = .ok m :=
  Json.decodeMap_record m fun _ _ => rfl

/-- A map that is left out when it is empty. -/
theorem orElse_textMap (m : NameMap String) {fs : Fields} {name : String}
    (h : fs.lookup name = if m.isEmpty then none else some (textMap m)) :
    fs.orElse name .empty (Json.Decoder.map Decoder.string) = .ok m := by
  rw [Fields.orElse, h]
  by_cases hempty : m.isEmpty = true
  · rw [if_pos hempty, NameMap.eq_empty_of_isEmpty hempty]
  · rw [if_neg hempty]
    exact decodeMap_textMap m

theorem isPlain_textMap (m : NameMap String) : IsPlain (textMap m) := by
  refine Json.isPlain_record fun e he => ?_
  obtain ⟨x, -, rfl⟩ := List.mem_map.1 he
  exact .string x.2

namespace Cpu

theorem isPlain_toJson (cpu : Cpu) : IsPlain cpu.toJson := by
  refine Json.isPlain_record fun m hm => ?_
  simp only [List.mem_append, List.mem_cons, List.not_mem_nil, or_false] at hm
  rcases hm with ((rfl | rfl | rfl) | hm) | rfl
  · exact .string _
  · exact Json.isPlain_texts _
  · exact .string _
  · split at hm
    · cases hm
    · rw [List.mem_singleton.1 hm]
      exact isPlain_textMap _
  · exact cpu.sources.isPlain_toJson

theorem decoder_toJson (cpu : Cpu) : decoder cpu.toJson = .ok cpu := by
  have hfields := fields_of_sublist
    ["name", "tags", "toolchain", "build_parameters", "sources"]
    ([("name", .text cpu.name), ("tags", .texts cpu.tags),
        ("toolchain", .text cpu.toolchain)]
      ++ (if cpu.buildParameters.isEmpty then []
          else [("build_parameters", textMap cpu.buildParameters)])
      ++ [("sources", cpu.sources.toJson)]) (by simp) (by split <;> simp)
  simp only [decoder, toJson, hfields, bind, Except.bind]
  rw [required_text cpu.name, orElse_of_lookup (decodeTexts_texts cpu.tags),
    orElse_text cpu.toolchain,
    orElse_textMap cpu.buildParameters, orElse_of_lookup cpu.sources.decoder_toJson]
  · rfl
  all_goals
    simp [List.lookup_append, lookup_cons]
    try split <;> simp [lookup_cons]

end Cpu

namespace Toolchain

theorem isPlain_toJson (t : Toolchain) : IsPlain t.toJson := by
  refine Json.isPlain_record fun m hm => ?_
  simp only [List.mem_cons, List.not_mem_nil, or_false] at hm
  rcases hm with rfl | rfl <;> exact .string _

theorem decoder_toJson (t : Toolchain) : decoder t.toJson = .ok t := by
  have hfields := fields_of_sublist ["path", "id"]
    [("path", .text t.path), ("id", .text t.id)] (by simp) (by simp)
  simp only [decoder, toJson, hfields, bind, Except.bind]
  rw [required_text t.path,
    orElse_text t.id]
  · rfl
  all_goals simp [lookup_cons]

end Toolchain

theorem Instant.decoder_text {t : Instant} (h : Instant.read? t.write = some t) :
    Instant.decoder (.text t.write) = .ok t := by
  simp [Instant.decoder, Json.text, Decoder.string, h, bind, Except.bind, pure, Except.pure]

theorem word32_int {n : Nat} (h : n < 0x100000000) : Decoder.word32 (.int n) = .ok n := by
  have hbound : (n : Int) < 4294967296 := by exact_mod_cast h
  simp [Decoder.word32, Json.int, hbound]

/-! ## Projects -/

namespace Project

theorem isPlain_toJson (p : Project) : IsPlain p.toJson := by
  refine Json.isPlain_record fun m hm => ?_
  simp only [List.mem_append, List.mem_cons, List.not_mem_nil, or_false, List.mem_map] at hm
  rcases hm with ((((hm | hm) | rfl) | hm) | rfl) | ⟨t, -, rfl⟩
  · rcases hm with rfl | rfl | rfl | rfl | rfl | rfl | rfl
    · exact .number _
    · exact .string _
    · exact .string _
    · exact .string _
    · exact p.cpu.isPlain_toJson
    · exact p.toolchain.isPlain_toJson
    · exact .string _
  · exact isPlain_of_mem_textsUnlessEmpty hm
  · exact Json.isPlain_texts _
  · exact isPlain_of_mem_textsUnlessEmpty hm
  · refine Json.isPlain_record fun e he => ?_
    obtain ⟨x, -, rfl⟩ := List.mem_map.1 he
    exact isPlain_textMap x.2
  · exact .string _

theorem decodeMap_parameters (m : NameMap (NameMap String)) :
    Json.Decoder.map (Json.Decoder.map Decoder.string)
      (.record (m.entries.map fun (path, values) => (path, textMap values))) = .ok m :=
  Json.decodeMap_record m fun e _ => decodeMap_textMap e.2

/-- The moment of saving is left out if there is none. -/
theorem orElse_savedAt {fs : Fields} {name : String} {savedAt : Option Instant}
    (hread : ∀ t ∈ savedAt, Instant.read? t.write = some t)
    (h : fs.lookup name = savedAt.map fun t => .text t.write) :
    fs.orElse name none (Decoder.optional Instant.decoder) = .ok savedAt := by
  cases savedAt with
  | none => simp [Fields.orElse, h]
  | some t =>
    have ht := Instant.decoder_text (hread t rfl)
    rw [Fields.orElse, h]
    simp [Decoder.optional, Json.text] at ht ⊢
    rw [ht]
    rfl

theorem decoder_toJson {p : Project} (hversion : p.version < 0x100000000)
    (hsaved : ∀ t ∈ p.savedAt, Instant.read? t.write = some t) : decoder p.toJson = .ok p := by
  have hfields := fields_of_sublist fieldNames
    ([("version", .int p.version), ("name", .text p.name),
        ("source_root", .text p.sourceRoot), ("output_dir", .text p.outputDir),
        ("cpu", p.cpu.toJson), ("toolchain", p.toolchain.toJson),
        ("clock_frequency", .text p.clockFrequency)]
      ++ textsUnlessEmpty "known_tags" p.knownTags
      ++ [("enabled_modules", .texts p.enabledModules)]
      ++ textsUnlessEmpty "explicit_modules" p.explicitModules
      ++ [("parameters", .record (p.parameters.entries.map fun (path, values) =>
          (path, textMap values)))]
      ++ p.savedAt.toList.map (fun t => ("saved_at", .text t.write))) (by simp [fieldNames]) (by
        simp only [List.map_append, List.append_assoc]
        refine .append (.refl _) ?_
        refine .append (keys_textsUnlessEmpty_sublist _ _) (.append (.refl ["enabled_modules"]) ?_)
        refine .append (keys_textsUnlessEmpty_sublist _ _) (.append (.refl ["parameters"]) ?_)
        cases p.savedAt <;> simp)
  refine Outcome.bind_eq_ok_iff.2 ⟨_, hfields, ?_⟩
  simp only [bind]
  rw [orElse_of_lookup (word32_int hversion), required_text p.name,
    required_text p.sourceRoot, required_text p.outputDir,
    required_of_lookup p.cpu.decoder_toJson, orElse_of_lookup p.toolchain.decoder_toJson,
    orElse_text p.clockFrequency,
    orElse_texts p.knownTags, orElse_of_lookup (decodeTexts_texts p.enabledModules),
    orElse_texts p.explicitModules,
    orElse_of_lookup (decodeMap_parameters p.parameters), orElse_savedAt hsaved]
  · rfl
  all_goals
    simp [List.lookup_append, lookup_cons, lookup_textsUnlessEmpty]
    try cases p.savedAt <;> simp [lookup_cons]

/-- The text of a descriptor holds the whole project. -/
theorem parse_write {p : Project} (hversion : p.version < 0x100000000)
    (hsaved : ∀ t ∈ p.savedAt, Instant.read? t.write = some t) : parse p.write = .ok p := by
  rw [parse, write, Json.decode, Json.parse?_pretty p.isPlain_toJson]
  simp only [decoder_toJson hversion hsaved]
  rfl

end Project

end Configurator
