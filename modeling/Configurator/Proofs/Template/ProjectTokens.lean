import Configurator.Proofs.Template.Substitution
import Configurator.Template.Basic

/-!
# The tokens of a project

The names of the tokens depend on the family only. They are words with a sign in front, and none is the
beginning of another, so whatever a project puts in for them, without signs in it, is put in as if the
text were gone over once (`substitute_ofProject`). The built-in templates are such texts, line by line.
-/

namespace Configurator.TokenTable

open Text

/-! ## Names -/

/-- The names of the tokens of a family. -/
def tokenNames (family : Template.Family) : List String :=
  ["$pname", "$cpuclockfreq", "$cpuname", "$cpuparameters", "$prefix", "$suffix", "$main", "$cppasrc",
      "$cxxsrc", "$asrc"]
    ++ if family.hasExtendedTokens then ["$csrc", "$pcsrc", "$constants"] else ["$csrc"]

variable {family : Template.Family} {p : Project} {c : Catalog} {sources : SourceLists}

theorem mem_keys_ofProject {name : String} :
    name ∈ (ofProject family p c sources).tokens.keys ↔ name ∈ tokenNames family := by
  have hnames : (commonTokens p sources ++ familyTokens family p c sources).map (·.1)
      = tokenNames family := by
    cases family <;> rfl
  rw [ofProject, TokenTable.ofList, NameMap.mem_keys_ofList, hnames]

theorem word_of_mem_tokenNames {name : String} (h : name ∈ tokenNames family) :
    ∃ word, name.toList = '$' :: word ∧ word ≠ [] ∧ ∀ c ∈ word, c.isAlpha = true := by
  have hall : (tokenNames family).all fun name => name.toList.head? == some '$'
      && !name.toList.tail.isEmpty && name.toList.tail.all Char.isAlpha := by
    cases family <;> decide +kernel
  have hname := List.all_eq_true.1 hall name h
  simp only [Bool.and_eq_true, beq_iff_eq, Bool.not_eq_true', List.isEmpty_eq_false_iff,
    List.all_eq_true] at hname
  obtain ⟨⟨hhead, hword⟩, halpha⟩ := hname
  exact ⟨name.toList.tail, List.eq_cons_of_mem_head? hhead, hword, halpha⟩

theorem eq_of_prefix_of_mem_tokenNames {name other : String} (h : name ∈ tokenNames family)
    (hother : other ∈ tokenNames family) (hstands : name.toList <+: other.toList) : name = other := by
  have hall : ∀ name ∈ tokenNames family, ∀ other ∈ tokenNames family,
      name.toList <+: other.toList → name = other := by
    cases family <;> decide +kernel
  exact hall name h other hother hstands

theorem worded_ofProject
    (hvalues : ∀ e ∈ (ofProject family p c sources).tokens.entries, '$' ∉ e.2.toList) :
    Worded (ofProject family p c sources).tokens.entries where
  word := fun _ he => word_of_mem_tokenNames (mem_keys_ofProject.1 (List.mem_map_of_mem he))
  unique := fun e he f hf hstands => by
    have hname := eq_of_prefix_of_mem_tokenNames (mem_keys_ofProject.1 (List.mem_map_of_mem he))
      (mem_keys_ofProject.1 (List.mem_map_of_mem hf)) hstands
    have hvalue := NameMap.get?_eq_some_iff.2 he
    rw [hname, NameMap.get?_eq_some_iff.2 hf, Option.some.injEq] at hvalue
    exact Prod.ext hname hvalue.symm
  value := hvalues

/-! ## Built-in templates -/

variable {tokens : List String} {cs rest : List Char}

theorem Fits.mono {more : List String} (h : Fits tokens cs) (hsub : tokens ⊆ more) : Fits more cs :=
  fun later hlater => (h later hlater).imp_left fun ⟨token, htoken, hstands⟩ =>
    ⟨token, hsub htoken, hstands⟩

theorem IsIdle.append_line (h : IsIdle cs) (rest : List Char) : IsIdle (cs ++ '\n' :: rest) := by
  rcases h with rfl | ⟨c, more, rfl, hc⟩
  · exact .inr ⟨'\n', rest, rfl, by decide⟩
  · exact .inr ⟨c, more ++ '\n' :: rest, rfl, hc⟩

/-- What stands behind the end of a line does not matter for the signs of the line. -/
theorem Fits.append_line (h : Fits tokens cs) (hrest : Fits tokens rest) :
    Fits tokens (cs ++ '\n' :: rest) := by
  induction cs with
  | nil => exact fits_cons.2 ⟨fun h => absurd h (by decide), hrest⟩
  | cons c cs ih =>
      obtain ⟨hhere, hlater⟩ := fits_cons.1 h
      refine fits_cons.2 ⟨fun hc => (hhere hc).imp ?_ fun hidle => hidle.append_line rest, ih hlater⟩
      exact fun ⟨token, htoken, hstands⟩ =>
        ⟨token, htoken, hstands.trans (List.prefix_append (c :: cs) _)⟩

theorem fits_ofLines {lines : List String} (h : ∀ line ∈ lines, Fits tokens line.toList) :
    Fits tokens (Template.Builtin.ofLines lines).toList := by
  induction lines with
  | nil => exact fits_nil tokens
  | cons line lines ih =>
      obtain ⟨hline, hlines⟩ := List.forall_mem_cons.1 h
      have htext : (Template.Builtin.ofLines (line :: lines)).toList
          = line.toList ++ '\n' :: (Template.Builtin.ofLines lines).toList := by
        simp [Template.Builtin.ofLines]
      rw [htext]
      exact hline.append_line (ih hlines)

/-- A line is checked by the characters of its literal: reading them out of the text is slow. -/
theorem forall_fits_cons {lines : List String} (hline : Fits tokens cs)
    (hlines : ∀ line ∈ lines, Fits tokens line.toList) :
    ∀ line ∈ String.ofList cs :: lines, Fits tokens line.toList :=
  List.forall_mem_cons.2 ⟨by rwa [String.toList_ofList], hlines⟩

theorem fits_builtin {project : String} {template : Template}
    (h : template ∈ (TemplateSet.builtin family project).templates) :
    Fits (tokenNames family) template.text.toList := by
  cases family <;> simp only [TemplateSet.builtin, List.mem_cons, List.not_mem_nil, or_false] at h
  all_goals
    rcases h with rfl | rfl | rfl
    all_goals
      refine fits_ofLines ?_
      repeat refine forall_fits_cons (by decide +kernel) ?_
      exact List.forall_mem_nil _

/-! ## Substitution -/

/-- Where no text of a project's tokens has a sign, they are put into a text as if it were gone over
once from left to right, no token is left, and nothing changes when it is done again. The text may be
any in which each sign begins a token or stays alone, as in all built-in templates of the family. -/
theorem substitute_ofProject (family : Template.Family) (p : Project) (c : Catalog)
    (sources : SourceLists) :
    let t := ofProject family p c sources
    ((∀ e ∈ t.tokens.entries, '$' ∉ e.2.toList) → ∀ text : String, Fits t.tokens.keys text.toList →
      (∀ out : String, Replaces t.tokens.entries text.toList out.toList ↔ t.substitute text = out)
        ∧ t.TokenFree (t.substitute text).toList
        ∧ t.substitute (t.substitute text) = t.substitute text)
    ∧ ∀ project, ∀ template ∈ (TemplateSet.builtin family project).templates,
        Fits t.tokens.keys template.text.toList := by
  intro t
  refine ⟨fun hvalues text hfits => substitute_of_fits (worded_ofProject hvalues) hfits, ?_⟩
  exact fun project template htemplate =>
    (fits_builtin htemplate).mono fun _ hname => mem_keys_ofProject.2 hname

/-- A project for a processor with one variable of the build. -/
def sampleProject : Project :=
  { version := 2, name := "demo", sourceRoot := "src", outputDir := "out",
    cpu := { name := "atmega328p", buildParameters := .ofList [("MK_MCU", "atmega328p")] },
    toolchain := { path := "/opt/bin/avr-gcc-9" }, clockFrequency := "16000000" }

/-- The name of the project goes into a reference to a variable, which begins with a sign of its own. -/
theorem substitute_sampleProject :
    let t := ofProject .current sampleProject default {}
    (∀ e ∈ t.tokens.entries, '$' ∉ e.2.toList) ∧ Fits t.tokens.keys "$($pname)".toList
      ∧ t.substitute "$($pname)" = "$(demo)" ∧ t.TokenFree "$(demo)".toList := by
  intro t
  have hvalues : ∀ e ∈ t.tokens.entries, '$' ∉ e.2.toList := by decide +kernel
  have hfits : Fits t.tokens.keys "$($pname)".toList := by decide +kernel
  have hruns : Replaces t.tokens.entries ('$' :: '(' :: ("$pname".toList ++ [')']))
      ('$' :: '(' :: ("demo".toList ++ [')'])) := by
    refine .copy (by decide +kernel) (.copy (by decide +kernel) ?_)
    have hname : ("$pname", "demo") ∈ t.tokens.entries := by decide +kernel
    exact .put hname (.copy (by decide +kernel) .nil)
  obtain ⟨hsubstitute, -⟩ := substitute_ofProject .current sampleProject default {}
  obtain ⟨hout, hfree, -⟩ := hsubstitute hvalues _ hfits
  have heq := (hout "$(demo)").1 hruns
  exact ⟨hvalues, hfits, heq, heq ▸ hfree⟩

end Configurator.TokenTable
