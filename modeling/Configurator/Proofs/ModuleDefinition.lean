import Configurator.ModuleDefinition
import Configurator.Proofs.Directive
import Configurator.Proofs.NameMap

/-!
# Module declarations are read back

A definition that was read from some block can be written, and the lines of it are read back as the
same definition, in whatever order they stand (`ofBlock_perm_directiveLines`). Each line puts one
key to a value (`put`), and no two keys have to do with each other, so that their order does not matter.
-/

namespace Configurator

open Directive (Assigned marker)
open Configurator.Expr (IsName keywords)

/-! ## Keys of directives -/

namespace Directive.Assigned

theorem string_eq_ok_iff {a : Assigned} {s : String} : a.string = .ok s ↔ a.value.str? = some s := by
  unfold string
  cases a.value <;> simp [Value.str?, fail]

theorem strings_eq_ok_iff {a : Assigned} {items : List String} :
    a.strings = .ok items ↔ a.value.strings? = some items := by
  unfold strings
  split <;> simp_all [fail]

end Directive.Assigned

namespace ModuleDefinition

/-- Keys that have a meaning of their own. -/
def meaningful : List String :=
  ["module_name", "module_depends", "module_configuration", "module_hw", "module_supports",
    "module_harvard"]

/-- Whether a value is of the kind that a key asks for. -/
def Suits (key : String) (value : Value) : Bool :=
  if key ∈ ["module_name", "module_configuration", "module_supports"] then value.str?.isSome
  else if key ∈ ["module_depends", "module_hw"] then value.strings?.isSome
  else if key = "module_harvard" then (value.str?.bind HarvardMode.ofName?).isSome
  else true

/-- A definition with a key put to a value of the kind that it asks for. -/
def put (m : ModuleDefinition) (key : String) (value : Value) : ModuleDefinition where
  name := if key = "module_name" then value.str?.getD "" else m.name
  depends := if key = "module_depends" then value.strings?.getD [] else m.depends
  configuration :=
    if key = "module_configuration" then value.str?.filter (· ≠ "") else m.configuration
  hw := if key = "module_hw" then value.strings?.getD [] else m.hw
  supports := if key = "module_supports" then value.str? else m.supports
  harvard := if key = "module_harvard" then value.str?.bind HarvardMode.ofName? else m.harvard
  description := m.description
  constants := if key ∈ meaningful then m.constants else m.constants.insert key value

theorem assign_eq_ok_iff {m m' : ModuleDefinition} {a : Assigned} :
    assign m a = .ok m' ↔ Suits a.key a.value = true ∧ m' = m.put a.key a.value := by
  unfold assign
  split
  case h_1 hkey | h_5 hkey =>
    simp only [Outcome.bind_eq_ok_iff, Assigned.string_eq_ok_iff, Suits, hkey, put]
    cases a.value.str? <;> simp [pure, Except.pure, meaningful, eq_comm]
  case h_2 hkey | h_4 hkey =>
    simp only [Outcome.bind_eq_ok_iff, Assigned.strings_eq_ok_iff, Suits, hkey, put]
    cases a.value.strings? <;> simp [pure, Except.pure, meaningful, eq_comm]
  case h_3 hkey =>
    simp only [Outcome.bind_eq_ok_iff, Assigned.string_eq_ok_iff, Suits, hkey, put]
    cases a.value.str? with
    | none => simp
    | some path =>
        by_cases hpath : path = "" <;>
          simp [pure, Except.pure, meaningful, eq_comm, hpath, Option.filter]
  case h_6 hkey =>
    simp only [Outcome.bind_eq_ok_iff, Assigned.string_eq_ok_iff, Suits, hkey, put]
    cases a.value.str? with
    | none => simp
    | some word =>
        cases hmode : HarvardMode.ofName? word <;>
          simp [pure, Except.pure, meaningful, eq_comm, hmode, Assigned.fail]
  case h_7 hname hdepends hconfiguration hhw hsupports hharvard =>
    have hother : a.key ≠ "module_name" ∧ a.key ≠ "module_depends" ∧ a.key ≠ "module_configuration"
        ∧ a.key ≠ "module_hw" ∧ a.key ≠ "module_supports" ∧ a.key ≠ "module_harvard" :=
      ⟨hname, hdepends, hconfiguration, hhw, hsupports, hharvard⟩
    simp [Suits, put, meaningful, hother, @eq_comm _ m']

/-! ## Order of keys -/

/-- No two keys have to do with the same field. -/
theorem put_comm (m : ModuleDefinition) {k k' : String} (hne : k ≠ k') (v v' : Value) :
    (m.put k v).put k' v' = (m.put k' v').put k v := by
  have hfield : ∀ {α : Type} (key : String) (a a' b : α),
      (if k' = key then a' else if k = key then a else b)
        = if k = key then a else if k' = key then a' else b := by
    intro α key a a' b
    by_cases hk : k = key
    · have hk' : k' ≠ key := fun hk' => hne (hk.trans hk'.symm)
      simp [hk, hk']
    · simp [hk]
  simp only [put, ModuleDefinition.mk.injEq, hfield, true_and]
  split
  · rfl
  · split
    · rfl
    · exact m.constants.insert_comm hne v v'

/-- A definition with all keys of a list put to their values. -/
def putAll (m : ModuleDefinition) (pairs : List (String × Value)) : ModuleDefinition :=
  pairs.foldl (fun m pair => m.put pair.1 pair.2) m

theorem putAll_of_perm {pairs pairs' : List (String × Value)} (hperm : pairs.Perm pairs')
    (hkeys : (pairs.map (·.1)).Nodup) (m : ModuleDefinition) : m.putAll pairs = m.putAll pairs' := by
  refine hperm.foldl_eq' (fun x hx y hy z => ?_) m
  by_cases hkey : x.1 = y.1
  · rw [List.inj_on_of_nodup_map hkeys hx hy hkey]
  · exact z.put_comm hkey x.2 y.2

theorem foldlM_assign {as : List Assigned} (hsuits : ∀ a ∈ as, Suits a.key a.value = true)
    (m : ModuleDefinition) :
    as.foldlM assign m = .ok (m.putAll (as.map fun a => (a.key, a.value))) := by
  induction as generalizing m with
  | nil => rfl
  | cons a as ih =>
      obtain ⟨ha, has⟩ := List.forall_mem_cons.1 hsuits
      rw [List.foldlM_cons, assign_eq_ok_iff.2 ⟨ha, rfl⟩]
      exact ih has (m.put a.key a.value)

/-! ## Definitions that can be written -/

/-- What holds of a definition that was read. Its constants can be written as directives and the
other keys leave them alone, and its description is what a line in the block can give. -/
structure IsWritable (m : ModuleDefinition) : Prop where
  constants : ∀ e ∈ m.constants.entries,
    e.1 ∉ meaningful ∧ IsName e.1 ∧ e.1 ∉ keywords ∧ e.2.HasLiteral
  configuration : m.configuration ≠ some ""
  trimmed : Text.trim m.description.toList = m.description.toList
  undirected : ¬ marker.toList <:+: m.description.toList

theorem IsWritable.put {m : ModuleDefinition} (h : m.IsWritable) {key : String} (hkey : IsName key)
    (hkeyword : key ∉ keywords) {value : Value} (hvalue : value.HasLiteral) :
    (m.put key value).IsWritable where
  constants := fun e he => by
    simp only [ModuleDefinition.put] at he
    split at he
    · exact h.constants e he
    · next hother =>
      rcases NameMap.mem_insertEntry he with rfl | he
      · exact ⟨hother, hkey, hkeyword, hvalue⟩
      · exact h.constants e he
  configuration := by
    simp only [ModuleDefinition.put]
    split
    · simp [Option.filter_eq_some_iff]
    · exact h.configuration
  trimmed := h.trimmed
  undirected := h.undirected

theorem exists_line_of_descriptionOf (lines : List String) : descriptionOf lines = ""
    ∨ ∃ line ∈ lines, Directive.isDirective line = false ∧ briefOf? line = some (descriptionOf lines) := by
  unfold descriptionOf
  cases hlast : ((lines.filter (!Directive.isDirective ·)).filterMap briefOf?).getLast? with
  | none => exact .inl rfl
  | some text =>
      obtain ⟨line, hline, hbrief⟩ := List.mem_filterMap.1 (List.mem_of_getLast? hlast)
      rw [List.mem_filter, Bool.not_eq_eq_eq_not, Bool.not_true] at hline
      exact .inr ⟨line, hline.1, hline.2, hbrief⟩

theorem isWritable_description (lines : List String) :
    IsWritable { description := descriptionOf lines } where
  constants := by simp [NameMap.empty]
  configuration := by simp
  trimmed := by
    rcases exists_line_of_descriptionOf lines with h | ⟨line, -, -, hbrief⟩
    · rw [h]
      rfl
    · obtain ⟨⟨before, behind⟩, -, heq⟩ := Option.map_eq_some_iff.1 hbrief
      simp [← heq]
  undirected := by
    rcases exists_line_of_descriptionOf lines with h | ⟨line, -, hline, hbrief⟩
    · rw [h]
      simp [marker]
    · -- a marker in the description would be one in its line
      obtain ⟨⟨before, behind⟩, hsplit, heq⟩ := Option.map_eq_some_iff.1 hbrief
      have hbehind : behind <:+ line.toList :=
        ⟨before ++ briefMarker.toList, (Text.splitAtFirst?_eq_some hsplit).symm⟩
      intro hmarker
      rw [← heq, String.toList_ofList] at hmarker
      have hin : marker.toList <:+: line.toList :=
        hmarker.trans ((Text.trim_infix behind).trans hbehind.isInfix)
      rw [Directive.isDirective_iff.2 hin] at hline
      cases hline

theorem isWritable_of_ofBlock {lines : List String} {m : ModuleDefinition} {has : Bool}
    (h : ofBlock lines = .ok ⟨some m, has⟩) : m.IsWritable := by
  unfold ofBlock at h
  obtain ⟨assigned, hassigned, h⟩ := Outcome.bind_eq_ok_iff.1 h
  have hsound : ∀ a ∈ assigned.flatten, IsName a.key ∧ a.key ∉ keywords ∧ a.value.HasLiteral := by
    intro a ha
    obtain ⟨found, hfound, ha⟩ := List.mem_flatten.1 ha
    obtain ⟨line, -, hline⟩ := exists_of_forall₂ (Outcome.mapM_eq_ok_iff.1 hassigned) hfound
    exact Directive.isName_of_assignments hline a ha
  dsimp only at h
  split at h
  · obtain ⟨m', hfold, heq⟩ := Outcome.bind_eq_ok_iff.1 h
    cases heq
    refine Outcome.foldlM_induction (isWritable_description lines) (fun a ha c c' hc hstep => ?_) hfold
    obtain ⟨-, rfl⟩ := assign_eq_ok_iff.1 hstep
    exact hc.put (hsound a ha).1 (hsound a ha).2.1 (hsound a ha).2.2
  · cases h

/-! ## Keys of a definition -/

theorem isName_of_mem_meaningful {key : String} (h : key ∈ meaningful) :
    IsName key ∧ key ∉ keywords := by
  have hname : ∀ cs : List Char, (∀ d ∈ cs, d.isAlphanum = true ∨ d = '_') →
      IsName (String.ofList ('m' :: cs)) := fun cs hcs =>
    ⟨'m', cs, String.toList_ofList, rfl, rfl, fun d hd => by
      rcases hcs d hd with hd | rfl
      · exact Expr.isIdentRest_of_isAlphanum hd
      · rfl⟩
  simp only [meaningful, List.mem_cons, List.not_mem_nil, or_false] at h
  rcases h with rfl | rfl | rfl | rfl | rfl | rfl
  all_goals exact ⟨hname _ (by simp), by simp [keywords]⟩

theorem hasLiteral_stringTuple (items : List String) : (stringTuple items).HasLiteral := by
  refine .tuple fun v hv => ?_
  obtain ⟨s, -, rfl⟩ := List.mem_map.1 hv
  exact .str s

@[simp] theorem strings?_stringTuple (items : List String) :
    (stringTuple items).strings? = some items := by
  show (items.map Value.str).mapM Value.str? = some items
  induction items with
  | nil => rfl
  | cons s items ih => simp [List.mapM_cons, Value.str?, ih]

@[simp] theorem ofName?_name (mode : HarvardMode) : HarvardMode.ofName? mode.name = some mode := by
  cases mode <;> cbv

theorem mem_assignments_iff {m : ModuleDefinition} {e : String × Value} :
    e ∈ m.assignments ↔ e = ("module_name", .str m.name)
      ∨ (m.depends ≠ [] ∧ e = ("module_depends", stringTuple m.depends))
      ∨ (∃ path, m.configuration = some path ∧ e = ("module_configuration", .str path))
      ∨ (m.hw ≠ [] ∧ e = ("module_hw", stringTuple m.hw))
      ∨ (∃ expr, m.supports = some expr ∧ e = ("module_supports", .str expr))
      ∨ (∃ mode, m.harvard = some mode ∧ e = ("module_harvard", .str mode.name))
      ∨ e ∈ m.constants.entries := by
  simp only [assignments, List.mem_append, List.mem_singleton, List.mem_map, Option.mem_toList,
    List.mem_ite_nil_left, or_assoc, eq_comm]

theorem IsWritable.of_mem_assignments {m : ModuleDefinition} (h : m.IsWritable)
    {e : String × Value} (he : e ∈ m.assignments) :
    IsName e.1 ∧ e.1 ∉ keywords ∧ e.2.HasLiteral ∧ Suits e.1 e.2 = true := by
  have hmeaning : ∀ {key value}, key ∈ meaningful → value.HasLiteral → Suits key value = true →
      e = (key, value) → IsName e.1 ∧ e.1 ∉ keywords ∧ e.2.HasLiteral ∧ Suits e.1 e.2 = true := by
    rintro key value hkey hvalue hsuits rfl
    exact ⟨(isName_of_mem_meaningful hkey).1, (isName_of_mem_meaningful hkey).2, hvalue, hsuits⟩
  rcases mem_assignments_iff.1 he with he | ⟨-, he⟩ | ⟨path, -, he⟩ | ⟨-, he⟩ | ⟨expr, -, he⟩
    | ⟨mode, -, he⟩ | he
  · exact hmeaning (by simp [meaningful]) (.str _) (by simp [Suits, Value.str?]) he
  · exact hmeaning (by simp [meaningful]) (hasLiteral_stringTuple _) (by simp [Suits]) he
  · exact hmeaning (by simp [meaningful]) (.str _) (by simp [Suits, Value.str?]) he
  · exact hmeaning (by simp [meaningful]) (hasLiteral_stringTuple _) (by simp [Suits]) he
  · exact hmeaning (by simp [meaningful]) (.str _) (by simp [Suits, Value.str?]) he
  · exact hmeaning (by simp [meaningful]) (.str _) (by simp [Suits, Value.str?]) he
  · obtain ⟨hother, hname, hkeyword, hvalue⟩ := h.constants e he
    refine ⟨hname, hkeyword, hvalue, ?_⟩
    simp only [meaningful, List.mem_cons, List.not_mem_nil, or_false, not_or] at hother
    simp [Suits, hother]

theorem putAll_append (m : ModuleDefinition) (pairs pairs' : List (String × Value)) :
    m.putAll (pairs ++ pairs') = (m.putAll pairs).putAll pairs' :=
  List.foldl_append

theorem putAll_constants {es : List (String × Value)} (hes : ∀ e ∈ es, e.1 ∉ meaningful)
    (m : ModuleDefinition) :
    m.putAll es = { m with constants := es.foldl (fun c e => c.insert e.1 e.2) m.constants } := by
  induction es generalizing m with
  | nil => rfl
  | cons e es ih =>
      obtain ⟨he, hes⟩ := List.forall_mem_cons.1 hes
      have hother := he
      simp only [meaningful, List.mem_cons, List.not_mem_nil, or_false, not_or] at hother
      have hput : m.put e.1 e.2 = { m with constants := m.constants.insert e.1 e.2 } := by
        simp [ModuleDefinition.put, he, hother]
      show (m.put e.1 e.2).putAll es = _
      rw [ih hes, hput]
      rfl

/-- The keys of a definition that have a meaning, with their values. -/
def stated (m : ModuleDefinition) : List (String × Value) :=
  [("module_name", .str m.name)]
    ++ (if m.depends = [] then [] else [("module_depends", stringTuple m.depends)])
    ++ m.configuration.toList.map (fun path => ("module_configuration", .str path))
    ++ (if m.hw = [] then [] else [("module_hw", stringTuple m.hw)])
    ++ m.supports.toList.map (fun expr => ("module_supports", .str expr))
    ++ m.harvard.toList.map (fun mode => ("module_harvard", .str mode.name))

theorem assignments_eq (m : ModuleDefinition) : m.assignments = m.stated ++ m.constants.entries :=
  rfl

theorem keys_stated_sublist (m : ModuleDefinition) :
    (m.stated.map (·.1)).Sublist meaningful := by
  have hoption : ∀ {α : Type} (o : Option α) (key : String) (f : α → Value),
      ((o.toList.map fun a => (key, f a)).map (·.1)).Sublist [key] := by
    intro α o key f
    cases o <;> simp
  have hlist : ∀ (items : List String) (key : String) (v : Value),
      ((if items = [] then [] else [(key, v)]).map (·.1)).Sublist [key] := by
    intro items key v
    split <;> simp
  simp only [stated, List.map_append]
  exact ((((((List.Sublist.refl ["module_name"]).append (hlist _ _ _)).append
    (hoption _ _ _)).append (hlist _ _ _)).append (hoption _ _ _)).append (hoption _ _ _))

/-- A key that is left out says what a definition says without it. -/
theorem putAll_depends (m : ModuleDefinition) (items : List String) (hm : m.depends = []) :
    m.putAll (if items = [] then [] else [("module_depends", stringTuple items)])
      = { m with depends := items } := by
  split
  · next hnil => rw [hnil, ← hm, putAll, List.foldl_nil]
  · simp [putAll, ModuleDefinition.put, meaningful]

theorem putAll_hw (m : ModuleDefinition) (items : List String) (hm : m.hw = []) :
    m.putAll (if items = [] then [] else [("module_hw", stringTuple items)])
      = { m with hw := items } := by
  split
  · next hnil => rw [hnil, ← hm, putAll, List.foldl_nil]
  · simp [putAll, ModuleDefinition.put, meaningful]

theorem putAll_toList {α : Type} (m : ModuleDefinition) (o : Option α) (key : String) (f : α → Value)
    {g : Option α → ModuleDefinition} (hnone : g none = m)
    (hsome : ∀ a, o = some a → m.put key (f a) = g (some a)) :
    m.putAll (o.toList.map fun a => (key, f a)) = g o := by
  cases o with
  | none => exact hnone.symm
  | some a => exact hsome a rfl

theorem putAll_stated (m : ModuleDefinition) (hconfiguration : m.configuration ≠ some "") :
    putAll { description := m.description } m.stated = { m with constants := .empty } := by
  have hname : putAll { description := m.description } [("module_name", .str m.name)]
      = { name := m.name, description := m.description } := by
    simp [putAll, ModuleDefinition.put, meaningful, Value.str?]
  simp only [stated, putAll_append, hname]
  rw [putAll_depends _ _ rfl,
    putAll_toList (g := fun o =>
      { name := m.name, depends := m.depends, configuration := o, description := m.description })
      _ m.configuration _ _ rfl fun path hpath => by
        have hne : path ≠ "" := fun h => hconfiguration (by rw [hpath, h])
        simp [ModuleDefinition.put, meaningful, Value.str?, Option.filter, hne],
    putAll_hw _ _ rfl,
    putAll_toList (g := fun o => { m with supports := o, harvard := none, constants := .empty })
      _ m.supports _ _ rfl fun expr _ => by
        simp [ModuleDefinition.put, meaningful, Value.str?],
    putAll_toList (g := fun o => { m with harvard := o, constants := .empty }) _ m.harvard _ _ rfl
      fun mode _ => by simp [ModuleDefinition.put, meaningful, Value.str?]]

theorem IsWritable.nodup_keys {m : ModuleDefinition} (h : m.IsWritable) :
    (m.assignments.map (·.1)).Nodup := by
  have hmeaningful : meaningful.Nodup := by simp [meaningful]
  have hstated := m.keys_stated_sublist
  rw [assignments_eq, List.map_append]
  refine (hmeaningful.sublist hstated).append m.constants.nodup_keys fun key hkey hconstant => ?_
  obtain ⟨e, he, rfl⟩ := List.mem_map.1 hconstant
  exact (h.constants e he).1 (hstated.subset hkey)

/-- Putting all keys of a definition gives the definition. -/
theorem IsWritable.putAll_assignments {m : ModuleDefinition} (h : m.IsWritable) :
    putAll { description := m.description } m.assignments = m := by
  have hconstants : m.constants.entries.foldl (fun c e => c.insert e.1 e.2) .empty = m.constants :=
    m.constants.ofList_entries
  rw [assignments_eq, putAll_append, m.putAll_stated h.configuration,
    putAll_constants fun e he => (h.constants e he).1, hconstants]

/-! ## Lines of a definition -/

/-- Whether a line, whatever its index, gives keys their values. -/
def Gives (line : String) (pairs : List (String × Value)) : Prop :=
  ∀ index, ∃ found, Directive.assignments index line = .ok found
    ∧ found.map (fun a => (a.key, a.value)) = pairs

theorem exists_mapM_of_gives {lines : List String} {given : List (List (String × Value))}
    (h : List.Forall₂ Gives lines given) (start : Nat) :
    ∃ assigned, (lines.zipIdx start).mapM (fun (line, index) => Directive.assignments index line)
        = .ok assigned
      ∧ assigned.flatten.map (fun a => (a.key, a.value)) = given.flatten := by
  induction h generalizing start with
  | nil => exact ⟨[], rfl, rfl⟩
  | cons hline _ ih =>
      obtain ⟨found, hfound, hpairs⟩ := hline start
      obtain ⟨assigned, hassigned, hgiven⟩ := ih (start + 1)
      refine ⟨found :: assigned, ?_, by simp [hpairs, ← hgiven]⟩
      rw [Outcome.mapM_eq_ok_iff] at hassigned ⊢
      exact .cons hfound hassigned

/-- The line that describes a module. -/
def briefLine (description : String) : String :=
  briefMarker ++ " " ++ description

theorem toList_briefLine (description : String) :
    (briefLine description).toList = briefMarker.toList ++ ' ' :: description.toList := by
  simp [briefLine]

theorem not_isDirective_briefLine {description : String}
    (h : ¬ marker.toList <:+: description.toList) :
    Directive.isDirective (briefLine description) = false := by
  rw [Bool.eq_false_iff, Ne, Directive.isDirective_iff, toList_briefLine]
  have hfront : ∀ front : List Char, '$' ∉ front →
      ¬ marker.toList <:+: front ++ description.toList := by
    intro front hfront
    induction front with
    | nil => exact h
    | cons c front ih =>
        rw [List.cons_append, List.infix_cons_iff, not_or]
        refine ⟨fun hlead => ?_, ih fun hmem => hfront (List.mem_cons_of_mem _ hmem)⟩
        rw [show marker.toList = '$' :: ['W', 'I', 'Z', '$'] by simp [marker],
          List.cons_prefix_cons] at hlead
        exact hfront (hlead.1 ▸ List.mem_cons_self)
  have := hfront (briefMarker.toList ++ [' ']) (by simp [briefMarker])
  simpa using this

theorem briefOf?_briefLine {description : String}
    (h : Text.trim description.toList = description.toList) :
    briefOf? (briefLine description) = some description := by
  have hsplit : Text.splitAtFirst? briefMarker.toList (briefLine description).toList
      = some ([], ' ' :: description.toList) := by
    rw [toList_briefLine]
    exact Text.splitAtFirst?_append (by simp [briefMarker]) _
  simp only [briefOf?, hsplit, Option.map_some, Text.trim_cons_blank (c := ' ') rfl, h,
    String.ofList_toList]

theorem IsWritable.gives_assignments {m : ModuleDefinition} (h : m.IsWritable) :
    List.Forall₂ Gives (m.assignments.map fun (key, value) => Directive.render key value)
      (m.assignments.map fun e => [e]) := by
  rw [List.forall₂_map_left_iff, List.forall₂_map_right_iff, List.forall₂_same]
  intro e he index
  obtain ⟨hname, hkeyword, hvalue, -⟩ := h.of_mem_assignments he
  exact ⟨_, Directive.assignments_render hname hkeyword hvalue index, rfl⟩

theorem IsWritable.gives_directiveLines {m : ModuleDefinition} (h : m.IsWritable) :
    ∃ given, List.Forall₂ Gives m.directiveLines given ∧ given.flatten = m.assignments := by
  have hflatten : (m.assignments.map fun e => [e]).flatten = m.assignments :=
    List.flatMap_singleton' _
  by_cases hdescription : m.description = ""
  · refine ⟨_, ?_, hflatten⟩
    simpa [directiveLines, hdescription] using h.gives_assignments
  · refine ⟨[] :: m.assignments.map fun e => [e], ?_, ?_⟩
    · have hbrief : Gives (briefLine m.description) [] := fun index =>
        ⟨[], Directive.assignments_of_not_isDirective (not_isDirective_briefLine h.undirected) index, rfl⟩
      simp only [directiveLines, if_neg hdescription]
      exact .cons hbrief h.gives_assignments
    · rw [List.flatten_cons, List.nil_append, hflatten]

theorem filter_assignments (m : ModuleDefinition) :
    (m.assignments.map fun (key, value) => Directive.render key value).filter
      (!Directive.isDirective ·) = [] := by
  rw [List.filter_eq_nil_iff]
  intro line hline
  obtain ⟨⟨key, value⟩, -, rfl⟩ := List.mem_map.1 hline
  simp

theorem IsWritable.descriptionOf_perm {m : ModuleDefinition} (h : m.IsWritable)
    {lines : List String} (hperm : lines.Perm m.directiveLines) :
    descriptionOf lines = m.description := by
  have hfilter := hperm.filter (!Directive.isDirective ·)
  rw [directiveLines, List.filter_append, filter_assignments, List.append_nil] at hfilter
  by_cases hdescription : m.description = ""
  · rw [if_pos hdescription, List.filter_nil, List.perm_nil] at hfilter
    simp [descriptionOf, hfilter, hdescription]
  · have hbrief : [briefLine m.description].filter (!Directive.isDirective ·)
        = [briefLine m.description] := by
      simp [not_isDirective_briefLine h.undirected]
    rw [if_neg hdescription, ← briefLine, hbrief, List.perm_singleton] at hfilter
    simp [descriptionOf, hfilter, briefOf?_briefLine h.trimmed]

theorem IsWritable.ofBlock_perm {m : ModuleDefinition} (h : m.IsWritable) {lines : List String}
    (hperm : lines.Perm m.directiveLines) : ofBlock lines = .ok ⟨some m, true⟩ := by
  obtain ⟨given, hgiven, hflatten⟩ := h.gives_directiveLines
  obtain ⟨given', hgiven', hperm'⟩ := List.perm_comp_forall₂ hperm hgiven
  obtain ⟨assigned, hassigned, hpairs⟩ := exists_mapM_of_gives hgiven' 0
  have hassignments : (assigned.flatten.map fun a => (a.key, a.value)).Perm m.assignments := by
    rw [hpairs, ← hflatten]
    exact hperm'.flatten
  have hsuits : ∀ a ∈ assigned.flatten, Suits a.key a.value = true := fun a ha =>
    (h.of_mem_assignments (hassignments.mem_iff.1 (List.mem_map_of_mem ha))).2.2.2
  have hname : ("module_name", Value.str m.name) ∈ m.assignments :=
    mem_assignments_iff.2 (.inl rfl)
  have hnamed : (assigned.flatten.any fun a => a.key = "module_name") = true := by
    obtain ⟨a, ha, heq⟩ := List.mem_map.1 (hassignments.mem_iff.2 hname)
    exact List.any_eq_true.2 ⟨a, ha, by simp [(Prod.mk.inj heq).1]⟩
  have hdirective : lines.any Directive.isDirective = true := by
    refine List.any_eq_true.2 ⟨Directive.render "module_name" (.str m.name), hperm.mem_iff.2 ?_,
      Directive.isDirective_render _ _⟩
    exact List.mem_append_right _ (List.mem_map.2 ⟨_, hname, rfl⟩)
  have hnodup : ((assigned.flatten.map fun a => (a.key, a.value)).map (·.1)).Nodup :=
    (hassignments.map _).nodup_iff.2 h.nodup_keys
  have hput : putAll { description := descriptionOf lines }
      (assigned.flatten.map fun a => (a.key, a.value)) = m := by
    rw [h.descriptionOf_perm hperm, putAll_of_perm hassignments hnodup, h.putAll_assignments]
  unfold ofBlock
  rw [hassigned]
  simp only [bind, Except.bind, hnamed, if_true, foldlM_assign hsuits, hput, hdirective, pure,
    Except.pure]

/-- Whatever block a definition was read from, its lines in any order are read as that definition. -/
theorem ofBlock_perm_directiveLines {lines : List String} {m : ModuleDefinition} {has : Bool}
    (h : ofBlock lines = .ok ⟨some m, has⟩) {lines' : List String}
    (hperm : lines'.Perm m.directiveLines) : ofBlock lines' = .ok ⟨some m, true⟩ :=
  (isWritable_of_ofBlock h).ofBlock_perm hperm

/-- A block with a constant that holds a tuple in a tuple. -/
def uartBlock : List String :=
  ["$WIZ$ module_name = 'uart'; module_depends = 'bus'", "\\brief  Serial port. ",
    "$WIZ$ speeds = (9600, -1, ('a # b',), ())"]

def uartDefinition : ModuleDefinition where
  name := "uart"
  depends := ["bus"]
  description := "Serial port."
  constants := .ofList [("speeds", .tuple [.int 9600, .int (-1), .tuple [.str "a # b"], .tuple []])]

theorem ofBlock_uartBlock : ofBlock uartBlock = .ok ⟨some uartDefinition, true⟩ := by
  have hnamed : Directive.assignments 0 uartBlock[0]
      = .ok [⟨0, uartBlock[0], "module_name", .str "uart"⟩,
          ⟨0, uartBlock[0], "module_depends", .str "bus"⟩] := by
    cbv
  have hbrief : Directive.assignments 1 uartBlock[1] = .ok [] := by cbv
  have hspeeds : Directive.assignments 2 uartBlock[2]
      = .ok [⟨2, uartBlock[2], "speeds",
          .tuple [.int 9600, .int (-1), .tuple [.str "a # b"], .tuple []]⟩] := by
    cbv
  have hdescription : descriptionOf uartBlock = "Serial port." := by cbv
  have hdirective : uartBlock.any Directive.isDirective = true := by cbv
  have hassigned : uartBlock.zipIdx.mapM (fun (line, index) => Directive.assignments index line)
      = .ok _ := Outcome.mapM_eq_ok_iff.2 (.cons hnamed (.cons hbrief (.cons hspeeds .nil)))
  rw [ofBlock, hassigned, hdirective]
  rw [hdescription]
  rfl

theorem ofBlock_reverse_uartDefinition :
    ofBlock uartBlock = .ok ⟨some uartDefinition, true⟩
      ∧ uartDefinition.directiveLines.reverse.Perm uartDefinition.directiveLines
      ∧ ofBlock uartDefinition.directiveLines.reverse = .ok ⟨some uartDefinition, true⟩ := by
  have hperm := uartDefinition.directiveLines.reverse_perm
  exact ⟨ofBlock_uartBlock, hperm, ofBlock_perm_directiveLines ofBlock_uartBlock hperm⟩

end ModuleDefinition

end Configurator
