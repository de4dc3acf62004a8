import Configurator.Proofs.Header.Placement
import Configurator.Proofs.Header.RoundTrip
import Configurator.Proofs.Header.Spelling
import Configurator.Proofs.Project.Values

/-!
# Reading generated headers back

A header whose parameters took values is written, read again, and merged into the header that was read
first: that gives every parameter as it was written (`merge_parse_render`). Between the two readings
stands any run of edits, which keeps the header settled (`SettledIn.run`). The values have to be placed
and spelled so that they are found again, since a text is taken as it is.
-/

namespace Configurator

open Comment (Define IsPlain IsTrimmed documentedDefines)

namespace Header

/-! ## Headers whose parameters took values -/

/-- Whether a header is another one, as it was read, after some of its parameters took values. -/
structure Settled (h conf : Header) : Prop where
  path : conf.path = h.path
  source : conf.source = h.source
  params : List.Forall₂ Parameter.Settled h.params conf.params

variable {path source : String} {h conf : Header}

theorem settled_of_parse (hparse : Header.parse path source = .ok h) : h.Settled h := by
  refine ⟨rfl, rfl, List.forall₂_same.2 fun p hp => ?_⟩
  obtain ⟨d, style, head, post, hpd, hstands⟩ := exists_stands hparse hp
  obtain ⟨comment, -, rfl⟩ := Parameter.ofDefine_eq_ok_iff.1 hpd
  exact Parameter.settled_ofComment comment hstands.isTrimmed

/-- A header in which a parameter takes a value stays settled. -/
theorem Settled.update (hsettled : h.Settled conf) {name value : String}
    {choices : Option ValueList} {old new : Parameter} (hold : conf.get? name = some old)
    (hnew : old.accept choices value = .ok new) :
    h.Settled (conf.update name fun _ => new) := by
  refine ⟨hsettled.path, hsettled.source, ?_⟩
  rw [Header.update, mapParams, List.forall₂_map_right_iff]
  refine (mem_of_forall₂ hsettled.params).imp ?_
  rintro p q ⟨-, hq, hpq⟩
  by_cases hname : q.name = name
  · have hsame : some q = some old := by
      rw [← hold]
      exact (get?_eq_some_iff.2 ⟨hq, hname⟩).symm
    obtain rfl := Option.some.inj hsame
    have hdecl := Parameter.declared_accept hnew
    have hnames : q.name = new.name := (congrArg (·.name) hdecl).symm
    have hspan : q.span = new.span := (congrArg (·.span) hdecl).symm
    rw [if_pos hname, hnames, hspan]
    exact hpq.accept hnew
  · rw [if_neg hname]
    exact hpq

/-- Whether the header that a catalogue has under a name is settled. -/
def SettledIn (h : Header) (configuration : String) (c : Catalog) : Prop :=
  ∀ conf, c.headers.get? configuration = some conf → h.Settled conf

variable {c : Catalog} {configuration : String}

theorem SettledIn.withParameter (hc : h.SettledIn configuration c) {path name value : String}
    {choices : Option ValueList} {old new : Parameter} (hold : c.parameter path name = .ok old)
    (hnew : old.accept choices value = .ok new) :
    h.SettledIn configuration (c.withParameter path name new) := by
  intro conf hconf
  rw [Catalog.withParameter, Catalog.modifyHeader, NameMap.get?_modify] at hconf
  split at hconf
  · next hpath =>
    subst hpath
    obtain ⟨k, hk, rfl⟩ := Option.map_eq_some_iff.1 hconf
    obtain ⟨k', hk', hget⟩ := Catalog.parameter_eq_ok_iff.1 hold
    rw [hk, Option.some.injEq] at hk'
    subst hk'
    exact (hc k hk).update hget hnew
  · exact hc conf hconf

theorem SettledIn.step (hc : h.SettledIn configuration c) {op : Operation}
    (hop : op.isEdit = true) : h.SettledIn configuration (c.step op) := by
  refine Catalog.edit_induction ?_ ?_ hop hc
  · intro d e heq hd conf hconf
    exact hd conf (heq ▸ hconf)
  · intro d path name choices value old new hold hnew hd
    exact hd.withParameter hold hnew

/-- The header of a catalogue stays settled under edits. -/
theorem SettledIn.run (hc : h.SettledIn configuration c) {ops : List Operation}
    (hops : ∀ op ∈ ops, op.isEdit = true) : h.SettledIn configuration (c.run ops) :=
  Catalog.run_induction ops (fun _ op hop hd => hd.step (hops op hop)) hc

theorem settledIn_of_parse (hparse : Header.parse path source = .ok h)
    (hh : c.headers.get? configuration = some h) : h.SettledIn configuration c := by
  intro conf hconf
  rw [hh, Option.some.injEq] at hconf
  subst hconf
  exact settled_of_parse hparse

/-! ## Reading what was written -/

/-- A header that took values can be written if they have no blanks around them and are placed for
that. -/
theorem rewritable_of_declared (hparse : Header.parse path source = .ok h)
    (hdecl : conf.declared = h.declared)
    (htrimmed : ∀ q ∈ conf.params, IsTrimmed q.rendered.toList)
    (hplaced : ∀ q ∈ conf.params, q.rendered.toList ≠ Span.slice source.toList q.span →
      Placed source.toList q.span q.rendered.toList) : conf.Rewritable := by
  have hparams := forall₂_of_declared hdecl
  have hsource : conf.source = source := (source_of_declared hdecl).trans (parse_eq_ok hparse).2.1
  have hspan : ∀ p q : Parameter, q.declared = p.declared → q.span = p.span :=
    fun p q hpq => congrArg (·.span) hpq
  refine ⟨fun q hq => ?_, ?_, htrimmed, fun q hq hkeeps => ?_⟩
  · obtain ⟨p, hp, hpq⟩ := exists_of_forall₂ hparams hq
    obtain ⟨d, hd, hpd⟩ := exists_define hparse hp
    refine ⟨d, hsource ▸ hd, ?_⟩
    rw [hspan p q hpq, Parameter.span_ofDefine hpd]
  · refine pairwise_of_forall₂ hparams (pairwise_params hparse) ?_
    intro p p' q q' hpq hpq' hne
    rwa [hspan p q hpq, hspan p' q' hpq']
  · rw [keeps, hsource, decide_eq_false_iff_not] at hkeeps
    rw [hsource]
    exact hplaced q hq hkeeps

theorem Settled.declared (hsettled : h.Settled conf) : conf.declared = h.declared := by
  refine ext hsettled.path ?_ hsettled.source
  rw [params_declared, params_declared, ← List.forall₂_eq_eq_eq, List.forall₂_map_left_iff,
    List.forall₂_map_right_iff]
  exact hsettled.params.flip.imp fun _ _ hpq => hpq.declared

theorem Settled.rewritable (hparse : Header.parse path source = .ok h) (hsettled : h.Settled conf)
    (hplaced : ∀ q ∈ conf.params, q.rendered.toList ≠ Span.slice source.toList q.span →
      Placed source.toList q.span q.rendered.toList) : conf.Rewritable := by
  refine rewritable_of_declared hparse hsettled.declared (fun q hq => ?_) hplaced
  obtain ⟨p, -, hpq⟩ := exists_of_forall₂ hsettled.params hq
  exact hpq.isTrimmed_rendered

/-- The define that follows one of a parameter has the value that is written. -/
theorem Rewritable.value_of_follows (hw : h.Rewritable) {q : Parameter} (hq : q ∈ h.params)
    {d d' : Define} (hd : d ∈ documentedDefines h.source.toList) (hspan : d.span = q.span)
    (hfollows : d.Follows h.swaps h.source.toList.length d') : d'.value = q.rendered := by
  obtain ⟨cs, post, hplace⟩ := hw.exists_placeOf hq
  obtain ⟨style, head, behind, hstands⟩ := Comment.stands_of_mem hd
  have hslice : Span.slice h.source.toList q.span = d.value.toList := hspan ▸ hstands.slice_eq.1
  have hlen : h.source.toList.length - d.span.start
      = (Span.slice h.source.toList q.span ++ post).length := by
    have hstart := hplace.start
    rw [hspan]
    omega
  have hswaps := hw.swaps_eq hq hplace
  rw [← hlen] at hswaps
  refine String.toList_inj.1 ?_
  cases hkeeps : h.keeps q with
  | true =>
      rw [hkeeps, if_pos rfl] at hswaps
      rw [hfollows.value.1 hswaps, ← hslice]
      exact (of_decide_eq_true hkeeps).symm
  | false =>
      rw [hkeeps, if_neg (by decide)] at hswaps
      exact hfollows.value.2 _ hswaps hslice.symm

/-- The first defines of each name in a header that is written are those of its text. -/
theorem Rewritable.firstOfEachName_render (hw : h.Rewritable) :
    List.Forall₂ (Define.Follows h.swaps h.source.toList.length)
      (firstOfEachName (documentedDefines h.source.toList))
      (firstOfEachName (documentedDefines h.render.toList)) :=
  forall₂_firstOfEachName (fun _ _ hfollows => hfollows.name) hw.documentedDefines_render

/-- A header that took values is read again once it is written. -/
theorem exists_parse_render (hparse : Header.parse path source = .ok h)
    (hsource : conf.source = source) (hw : conf.Rewritable) :
    ∃ copy, Header.parse path conf.render = .ok copy := by
  refine exists_parse path ?_
  intro d' hd'
  obtain ⟨d, hd, hfollows⟩ := exists_of_forall₂ hw.firstOfEachName_render hd'
  rw [hsource] at hd
  obtain ⟨p, -, hpd⟩ := exists_of_forall₂_left (parse_eq_ok hparse).2.2 hd
  obtain ⟨comment, hcomment, -⟩ := Parameter.ofDefine_eq_ok_iff.1 hpd
  rw [← hfollows.comment] at hcomment
  exact ⟨_, Parameter.ofDefine_eq_ok_iff.2 ⟨comment, hcomment, rfl⟩⟩

/-- What is read of a parameter that was written: its define with the new value, under the same
comment. -/
theorem exists_define_render (hparse : Header.parse path source = .ok h)
    (hsource : conf.source = source) (hw : conf.Rewritable) {copy : Header}
    (hcopy : Header.parse path conf.render = .ok copy) {p q : Parameter} (hp : p ∈ h.params)
    (hq : q ∈ conf.params) (hpq : q.declared = p.declared) :
    ∃ d ∈ documentedDefines source.toList, ∃ comment d', d.span = q.span
      ∧ Header.Comment.ofLines d.comment = .ok comment ∧ p = Parameter.ofComment comment d
      ∧ d'.value = q.rendered ∧ copy.get? p.name = some (Parameter.ofComment comment d') := by
  obtain ⟨d, hd, hpd⟩ := exists_of_forall₂ (parse_eq_ok hparse).2.2 hp
  obtain ⟨comment, hcomment, rfl⟩ := Parameter.ofDefine_eq_ok_iff.1 hpd
  have hspan : d.span = q.span := (congrArg (·.span) hpq).symm
  have hdoc : d ∈ documentedDefines source.toList := (firstOfEachName_sublist _).subset hd
  obtain ⟨d', hd', hfollows⟩ := exists_of_forall₂_left hw.firstOfEachName_render (hsource ▸ hd)
  obtain ⟨other, hother, hread⟩ := exists_of_forall₂_left (parse_eq_ok hcopy).2.2 hd'
  have hcomment' : Header.Comment.ofLines d'.comment = .ok comment := hfollows.comment ▸ hcomment
  obtain ⟨comment', hlines, rfl⟩ := Parameter.ofDefine_eq_ok_iff.1 hread
  rw [hcomment', Except.ok.injEq] at hlines
  subst hlines
  exact ⟨d, hdoc, comment, d', hspan, hcomment, rfl,
    hw.value_of_follows hq (hsource ▸ hdoc) hspan hfollows,
    get?_eq_some_iff.2 ⟨hother, hfollows.name⟩⟩

theorem Settled.exists_parse_render (hparse : Header.parse path source = .ok h)
    (hsettled : h.Settled conf) (hw : conf.Rewritable) :
    ∃ copy, Header.parse path conf.render = .ok copy :=
  Header.exists_parse_render hparse (hsettled.source.trans (parse_eq_ok hparse).2.1) hw

/-- Each parameter takes its value over from what is read of it. -/
theorem Settled.takeValue (hparse : Header.parse path source = .ok h) (hsettled : h.Settled conf)
    (hw : conf.Rewritable) {copy : Header} (hcopy : Header.parse path conf.render = .ok copy)
    {p q : Parameter} (hp : p ∈ h.params) (hq : q ∈ conf.params) (hpq : p.Settled q)
    (hspelled : ∀ d ∈ documentedDefines source.toList, d.span = q.span → ∀ comment,
      Header.Comment.ofLines d.comment = .ok comment → q.Spelled comment.directives) :
    ∃ other, copy.get? p.name = some other ∧ Header.takeValue p other = q := by
  obtain ⟨d, hd, comment, d', hspan, hcomment, rfl, hvalue, hget⟩ := exists_define_render hparse
    (hsettled.source.trans (parse_eq_ok hparse).2.1) hw hcopy hp hq hpq.declared
  exact ⟨_, hget, Parameter.takeValue_ofComment hpq (hspelled d hd hspan comment hcomment) hvalue⟩

/-- A generated header feeds back: when it is read and merged into the header that was read first, all
parameters are as they were when it was written. -/
theorem merge_parse_render {path source : String} {h conf : Header} {c : Catalog}
    {configuration : String} {ops : List Operation} (hparse : Header.parse path source = .ok h)
    (hh : c.headers.get? configuration = some h) (hops : ∀ op ∈ ops, op.isEdit = true)
    (hconf : (c.run ops).headers.get? configuration = some conf)
    (hplaced : ∀ q ∈ conf.params, q.rendered.toList ≠ Span.slice source.toList q.span →
      Placed source.toList q.span q.rendered.toList)
    (hspelled : ∀ q ∈ conf.params, ∀ d ∈ documentedDefines source.toList, d.span = q.span →
      ∀ comment, Header.Comment.ofLines d.comment = .ok comment → q.Spelled comment.directives) :
    ∃ copy, Header.parse path conf.render = .ok copy ∧ h.merge copy = conf := by
  have hsettled : h.Settled conf := (settledIn_of_parse hparse hh).run hops conf hconf
  have hw := hsettled.rewritable hparse hplaced
  obtain ⟨copy, hcopy⟩ := hsettled.exists_parse_render hparse hw
  refine ⟨copy, hcopy, ext hsettled.path.symm ?_ hsettled.source.symm⟩
  refine List.forall₂_eq_eq_eq ▸ ?_
  rw [merge, mapParams, List.forall₂_map_left_iff]
  refine (mem_of_forall₂ hsettled.params).imp ?_
  rintro p q ⟨hp, hq, hpq⟩
  obtain ⟨other, hother, htake⟩ := hsettled.takeValue hparse hw hcopy hp hq hpq (hspelled q hq)
  have hname : p.name = q.name := (congrArg (·.name) hpq.declared).symm
  have hspan : p.span = q.span := (congrArg (·.span) hpq.declared).symm
  rw [hother]
  dsimp only
  rw [htake, hname, hspan]

/-! ## One integer, and one text -/

/-- The header of an integer with both suffixes, with some digits for its value. -/
def timeoutWith (digits : String) : Header where
  path := "cfg_ser.h"
  params := [{ timeoutAt 23 27 with value := digits }]
  names_nodup := by simp
  source := timeoutHeader

/-- A header with a text. -/
def greetingHeader : String :=
  "/** */\n#define GREETING hello\n"

/-- A text, whose value begins at place 24 of its header. -/
def greetingAt (value : String) (stop : Nat) : Parameter where
  name := "GREETING"
  value
  type := .text
  min := none
  max := none
  long := false
  unsigned := false
  valueList := none
  conditionalDeps := []
  supports := none
  brief := ""
  description := ""
  extra := .empty
  span := ⟨24, stop⟩

def greetingWith (value : String) : Header where
  path := "cfg_ser.h"
  params := [greetingAt value 29]
  names_nodup := by simp
  source := greetingHeader

/-- A catalogue that has nothing but a header. -/
def inCatalog (h : Header) : Catalog :=
  .build "" [] [h] []

/-- A new integer is read again with the suffixes of the old one. -/
theorem merge_parse_render_timeoutWith :
    Header.parse "cfg_ser.h" timeoutHeader = .ok (timeoutWith "10")
      ∧ ((timeoutWith "10").inCatalog.run
          [.setParameter "cfg_ser.h" "TIMEOUT" "20"]).headers.get? "cfg_ser.h"
        = some (timeoutWith "20")
      ∧ ∃ copy, Header.parse "cfg_ser.h" (timeoutWith "20").render = .ok copy
        ∧ (timeoutWith "10").merge copy = timeoutWith "20" := by
  have hold : (timeoutWith "10").inCatalog.parameter "cfg_ser.h" "TIMEOUT"
      = .ok (timeoutAt 23 27) := by cbv
  have hnew : (timeoutAt 23 27).accept none "20" = .ok { timeoutAt 23 27 with value := "20" } := by
    decide
  have hset := Catalog.setParameter_of_type_ne_boolean hold hnew (by decide)
  have hconf : ((timeoutWith "10").inCatalog.run
      [.setParameter "cfg_ser.h" "TIMEOUT" "20"]).headers.get? "cfg_ser.h"
        = some (timeoutWith "20") := by
    rw [Catalog.run, List.foldl_cons, List.foldl_nil, Catalog.step,
      Catalog.Update.leaves_of_ok hset]
    cbv
  refine ⟨parse_timeoutHeader, hconf,
    merge_parse_render parse_timeoutHeader (by cbv) (by simp [Operation.isEdit]) hconf ?_ ?_⟩
  · intro q hq _
    obtain rfl := List.mem_singleton.1 hq
    have hbehind : timeoutHeader.toList.drop 27 = ['\n'] := by cbv
    refine ⟨by cbv, by cbv, fun d hd hlt => ?_, ?_, ?_⟩
    · rw [documentedDefines_timeoutHeader, List.mem_singleton] at hd
      subst hd
      exact absurd hlt (by decide)
    · have hold : Span.slice timeoutHeader.toList ⟨23, 27⟩ = ['1', '0', 'U', 'L'] := by cbv
      show IsPlain (Span.slice timeoutHeader.toList ⟨23, 27⟩) (timeoutHeader.toList.drop 27)
      rw [hold, hbehind]
      decide
    · have hnew : { timeoutAt 23 27 with value := "20" }.rendered.toList = ['2', '0', 'U', 'L'] := by
        cbv
      show IsPlain { timeoutAt 23 27 with value := "20" }.rendered.toList (timeoutHeader.toList.drop 27)
      rw [hnew, hbehind]
      decide
  · intro q hq d hd _ comment hcomment
    obtain rfl := List.mem_singleton.1 hq
    rw [documentedDefines_timeoutHeader, List.mem_singleton] at hd
    subst hd
    obtain rfl : {} = comment := Except.ok.inj hcomment
    exact ⟨fun _ _ => by decide, fun _ _ _ => by decide, fun htext => by cases htext⟩

/-- A text is written as it is, so that a comment in it is none of the value when it is read again. -/
theorem not_forall_merge_parse_render :
    ¬ ∀ (path source : String) (h conf : Header) (c d : Catalog) (configuration name value : String)
        (change : Catalog.Change),
      Header.parse path source = .ok h → c.headers.get? configuration = some h →
      c.setParameter configuration name value = .ok (change, d) →
      d.headers.get? configuration = some conf →
      ∃ copy, Header.parse path conf.render = .ok copy
        ∧ ∀ n p q, (h.merge copy).get? n = some p → conf.get? n = some q →
          p.value = q.value ∧ p.long = q.long ∧ p.unsigned = q.unsigned ∧ p.isSet = q.isSet := by
  intro hall
  have hdefines : documentedDefines greetingHeader.toList
      = [⟨[], "GREETING", "hello", ⟨24, 29⟩, 0⟩] := by cbv
  have hparse : Header.parse "cfg_ser.h" greetingHeader = .ok (greetingWith "hello") :=
    parse_of_documentedDefines_eq hdefines
      (Parameter.ofDefine_eq_ok_iff.2 ⟨{}, rfl, by decide⟩) _
  have hold : (greetingWith "hello").inCatalog.parameter "cfg_ser.h" "GREETING"
      = .ok (greetingAt "hello" 29) := by cbv
  have hnew : (greetingAt "hello" 29).accept none "a // b" = .ok (greetingAt "a // b" 29) := by
    decide
  have hset := Catalog.setParameter_of_type_ne_boolean hold hnew (by decide)
  have hh : (greetingWith "hello").inCatalog.headers.get? "cfg_ser.h"
      = some (greetingWith "hello") := by cbv
  have hconf : ((greetingWith "hello").inCatalog.withParameter "cfg_ser.h" "GREETING"
      (greetingAt "a // b" 29)).headers.get? "cfg_ser.h" = some (greetingWith "a // b") := by cbv
  obtain ⟨copy, hcopy, hsame⟩ := hall _ _ _ _ _ _ _ _ _ _ hparse hh hset hconf
  have hwritten : (greetingWith "a // b").render = "/** */\n#define GREETING a // b\n" := by cbv
  have hdefines' : documentedDefines (greetingWith "a // b").render.toList
      = [⟨[], "GREETING", "a", ⟨24, 25⟩, 0⟩] := by
    rw [hwritten]
    cbv
  have hread : Header.parse "cfg_ser.h" (greetingWith "a // b").render
      = .ok ⟨"cfg_ser.h", [greetingAt "a" 25], by simp, (greetingWith "a // b").render⟩ :=
    parse_of_documentedDefines_eq hdefines'
      (Parameter.ofDefine_eq_ok_iff.2 ⟨{}, rfl, by decide⟩) _
  rw [hread, Except.ok.injEq] at hcopy
  subst hcopy
  have hvalue := (hsame "GREETING" (greetingAt "a" 29) (greetingAt "a // b" 29) (by rfl) (by rfl)).1
  exact absurd hvalue (by decide)

end Header

end Configurator
