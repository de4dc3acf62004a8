import Configurator.Header.Parameter

/-!
# Configuration headers

A header is a text whose documented defines are parameters. `Header.parse` reads the parameters, and
`Header.render` writes the text back with each parameter's present value in place of its old one.
-/

namespace Configurator

structure Header where
  /-- Relative to the source root. -/
  path : String
  /-- In the order of the text. -/
  params : List Parameter
  names_nodup : (params.map (·.name)).Nodup
  /-- The text that the parameters were read from. -/
  source : String
  deriving DecidableEq, Repr

namespace Header

instance : Inhabited Header := ⟨⟨"", [], .nil, ""⟩⟩

/-! ## Reading -/

/-- Of defines with one name the first. -/
def firstOfEachName : List Comment.Define → List Comment.Define
  | [] => []
  | d :: ds => d :: (firstOfEachName ds).filter (·.name ≠ d.name)

theorem nodup_firstOfEachName (ds : List Comment.Define) :
    ((firstOfEachName ds).map (·.name)).Nodup := by
  induction ds with
  | nil => exact .nil
  | cons d ds ih =>
    refine List.nodup_cons.2 ⟨fun h => ?_, ?_⟩
    · obtain ⟨e, he, hname⟩ := List.mem_map.1 h
      simpa [hname] using (List.mem_filter.1 he).2
    · exact ih.sublist (List.filter_sublist.map _)

/-- The parameters of some defines, or the first error. -/
def readParameters : List Comment.Define → Except Directive.Error (List Parameter)
  | [] => .ok []
  | d :: ds =>
    match Parameter.ofDefine d with
    | .error e => .error e
    | .ok p =>
      match readParameters ds with
      | .error e => .error e
      | .ok ps => .ok (p :: ps)

theorem readParameters_cons_eq_ok_iff {d : Comment.Define} {ds : List Comment.Define}
    {ps : List Parameter} : readParameters (d :: ds) = .ok ps
      ↔ ∃ p rest, Parameter.ofDefine d = .ok p ∧ readParameters ds = .ok rest ∧ ps = p :: rest := by
  rw [readParameters]
  cases Parameter.ofDefine d with
  | error e => simp
  | ok p => cases readParameters ds <;> simp [eq_comm]

theorem names_readParameters {ds : List Comment.Define} {ps : List Parameter}
    (h : readParameters ds = .ok ps) : ps.map (·.name) = ds.map (·.name) := by
  induction ds generalizing ps with
  | nil =>
    cases h
    rfl
  | cons d ds ih =>
    obtain ⟨p, rest, hp, hrest, rfl⟩ := readParameters_cons_eq_ok_iff.1 h
    simp [Parameter.name_ofDefine hp, ih hrest]

/-- The header that a text holds. Of defines with one name only the first counts. -/
def parse (path source : String) : Except Directive.Error Header :=
  let defines := firstOfEachName (Comment.documentedDefines source.toList)
  match h : readParameters defines with
  | .error e => .error e
  | .ok params =>
    .ok ⟨path, params, names_readParameters h ▸ nodup_firstOfEachName _, source⟩

/-! ## Access and change -/

/-- The parameter with a name. -/
def get? (h : Header) (name : String) : Option Parameter :=
  h.params.find? (·.name = name)

/-- The header with some of its parameters changed. Names and places stay. -/
def mapParams (h : Header) (f : Parameter → Parameter) : Header :=
  { h with
    params := h.params.map fun p => { f p with name := p.name, span := p.span }
    names_nodup := by simpa [Function.comp_def] using h.names_nodup }

/-- The header with the parameter of one name changed. -/
def update (h : Header) (name : String) (f : Parameter → Parameter) : Header :=
  h.mapParams fun p => if p.name = name then f p else p

/-- A parameter with the value of another. An integer takes over the suffixes as well. -/
def takeValue (p other : Parameter) : Parameter :=
  if p.type = .integer then
    { p with value := other.value, long := other.long, unsigned := other.unsigned }
  else { p with value := other.value }

/-- Takes the values over from a copy of the header, for each name that both have. -/
def merge (h copy : Header) : Header :=
  h.mapParams fun p =>
    match copy.get? p.name with
    | some other => takeValue p other
    | none => p

/-- How many parameters a merge takes over. -/
def mergeCount (h copy : Header) : Nat :=
  h.params.countP fun p => (copy.get? p.name).isSome

/-! ## Writing -/

/-- The rest of a text from `cursor` on with stretches replaced. They have to come in the order of the
text: one that starts before the cursor or ends behind the text is passed over. -/
def splice (source : List Char) : (cursor : Nat) → List (Span × List Char) → List Char
  | cursor, [] => source.drop cursor
  | cursor, (span, value) :: edits =>
    if span.start < cursor ∨ source.length < span.stop then splice source cursor edits
    else Span.slice source ⟨cursor, span.start⟩ ++ value ++ splice source span.stop edits

/-- The stretches of the values with what is to stand there, in the order of the text. -/
def edits (h : Header) : List (Span × List Char) :=
  (h.params.map fun p => (p.span, p.rendered.toList)).mergeSort fun a b => a.1.start ≤ b.1.start

/-- The text of the header with the present values. -/
def render (h : Header) : String :=
  String.ofList (splice h.source.toList 0 h.edits)

end Header

end Configurator
