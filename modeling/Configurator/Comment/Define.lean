import Configurator.Comment.Block
import Configurator.Span

/-!
# Documented defines

A define takes part in configuration when a comment documents it, in one of three styles: a
documentation block right before it, a line of three slashes right above it, or a comment that opens
with `///<` behind its value. `documentedDefines` finds the defines of all styles in a text, and says
for each where its value stands.

Carriage returns and line feeds both end lines, alone or as a pair.
-/

namespace Configurator.Comment

open Text

/-! ## Parts of a define -/

/-- Skips one or more spaces and tabs. -/
def skipGap? : List Char → Option (List Char)
  | [] => none
  | c :: cs => if isInlineBlank c then some (cs.dropWhile isInlineBlank) else none

theorem skipGap?_length {cs rest : List Char} (h : skipGap? cs = some rest) :
    rest.length < cs.length := by
  cases cs with
  | nil => simp [skipGap?] at h
  | cons c cs =>
    simp only [skipGap?] at h
    split at h
    · cases h
      have := dropWhile_length_le isInlineBlank cs
      simp only [List.length_cons]
      omega
    · cases h

def defineWord : List Char :=
  ['#', 'd', 'e', 'f', 'i', 'n', 'e']

/-- The name in the define at the beginning of a text, and the text from the define's value on. -/
def defineHead? (cs : List Char) : Option (List Char × List Char) :=
  match dropPrefix? defineWord cs with
  | none => none
  | some afterWord =>
    match skipGap? afterWord with
    | none => none
    | some fromName =>
      let name := fromName.takeWhile isWordChar
      if name = [] then none
      else (skipGap? (fromName.dropWhile isWordChar)).map fun fromValue => (name, fromValue)

theorem defineHead?_length {cs name fromValue : List Char}
    (h : defineHead? cs = some (name, fromValue)) : fromValue.length < cs.length := by
  unfold defineHead? at h
  split at h
  · cases h
  · next afterWord hw =>
    split at h
    · cases h
    · next fromName hn =>
      dsimp only at h
      split at h
      · cases h
      · obtain ⟨r, hr, heq⟩ := Option.map_eq_some_iff.1 h
        cases heq
        have h1 := dropPrefix?_length hw
        have h2 := skipGap?_length hn
        have h3 := skipGap?_length hr
        have h4 := dropWhile_length_le isWordChar fromName
        omega

/-- Whether nothing of a define's value can stand here: at a line end or a comment. -/
def endsValue : List Char → Bool
  | [] => true
  | '\n' :: _ => true
  | '\r' :: _ => true
  | '/' :: '/' :: _ => true
  | _ => false

/-- The value at the beginning of a text, up to a comment or the end of the line and without the
blanks before that, and what follows the value. -/
def plainValue : List Char → List Char × List Char
  | [] => ([], [])
  | c :: cs =>
    if endsValue ((c :: cs).dropWhile isInlineBlank) then ([], c :: cs)
    else
      let (value, rest) := plainValue cs
      (c :: value, rest)

theorem plainValue_append (cs : List Char) : (plainValue cs).1 ++ (plainValue cs).2 = cs := by
  fun_induction plainValue cs <;> simp_all

/-- Skips up to the end of the line. -/
def skipLine : List Char → List Char
  | [] => []
  | '\n' :: cs => '\n' :: cs
  | '\r' :: '\n' :: cs => '\r' :: '\n' :: cs
  | _ :: cs => skipLine cs

theorem skipLine_length_le (cs : List Char) : (skipLine cs).length ≤ cs.length := by
  fun_induction skipLine cs with
  | case1 | case2 | case3 => simp
  | case4 =>
    simp only [List.length_cons]
    omega

/-- Skips the blanks and the comment behind a value. -/
def skipComment (cs : List Char) : List Char :=
  match cs.dropWhile isInlineBlank with
  | '/' :: '/' :: rest => skipLine rest
  | rest => rest

theorem skipComment_length_le (cs : List Char) : (skipComment cs).length ≤ cs.length := by
  have h := dropWhile_length_le isInlineBlank cs
  unfold skipComment
  split
  · next rest heq =>
    have := skipLine_length_le rest
    simp only [heq, List.length_cons] at h
    omega
  · exact h

/-- What opens a comment behind the value that it documents. -/
def trailingMark : List Char :=
  ['/', '/', '/', '<']

/-- The value in front of a comment that documents it, without the blanks between them, and the text
of the comment and after it. -/
def valueBeforeMark? : List Char → Option (List Char × List Char)
  | [] => none
  | c :: cs =>
    match dropPrefix? trailingMark ((c :: cs).dropWhile isInlineBlank) with
    | some rest => some ([], rest)
    | none =>
      if c = '\n' then none
      else (valueBeforeMark? cs).map fun (value, rest) => (c :: value, rest)

theorem valueBeforeMark?_cons_eq_some_iff {c : Char} {cs value rest : List Char} :
    valueBeforeMark? (c :: cs) = some (value, rest)
      ↔ (value = [] ∧ dropPrefix? trailingMark ((c :: cs).dropWhile isInlineBlank) = some rest)
        ∨ (dropPrefix? trailingMark ((c :: cs).dropWhile isInlineBlank) = none ∧ c ≠ '\n'
          ∧ ∃ value', value = c :: value' ∧ valueBeforeMark? cs = some (value', rest)) := by
  rw [valueBeforeMark?]
  generalize dropPrefix? trailingMark ((c :: cs).dropWhile isInlineBlank) = mark
  cases mark with
  | some inside => simp [and_comm, eq_comm]
  | none =>
    dsimp only
    split
    · next hc => simp [hc]
    · next hc =>
      constructor
      · intro h
        obtain ⟨⟨value', inside⟩, hrest, heq⟩ := Option.map_eq_some_iff.1 h
        cases heq
        exact .inr ⟨rfl, hc, value', rfl, hrest⟩
      · rintro (⟨-, h⟩ | ⟨-, -, value', rfl, hrest⟩)
        · cases h
        · rw [hrest]
          rfl

theorem valueBeforeMark?_length {cs value rest : List Char}
    (h : valueBeforeMark? cs = some (value, rest)) : rest.length ≤ cs.length := by
  induction cs generalizing value with
  | nil => simp [valueBeforeMark?] at h
  | cons c cs ih =>
    rcases valueBeforeMark?_cons_eq_some_iff.1 h with ⟨rfl, hmark⟩ | ⟨-, -, value', rfl, hrest⟩
    · have hbehind := dropPrefix?_length hmark
      have htrim := dropWhile_length_le isInlineBlank (c :: cs)
      omega
    · exact Nat.le_succ_of_le (ih hrest)

def isLineEnd (c : Char) : Bool :=
  c == '\n' || c == '\r'

/-! ## Styles -/

/-- How a comment documents a define. -/
inductive Style where
  /-- A documentation block right before the define. -/
  | block
  /-- A line of three slashes right above it. -/
  | line
  /-- A comment behind the value. -/
  | trailing
  deriving DecidableEq, Inhabited, Repr

/-- A define found at the beginning of some text. `fromValue` and `rest` are the ends of that text
from the value on and from behind the define on. -/
structure Site where
  comment : List String
  name : List Char
  value : List Char
  fromValue : List Char
  rest : List Char

/-- The define at the beginning of a text whose comment lines were read before it. -/
def plainDefine? (comment : List String) (cs : List Char) : Option Site :=
  (defineHead? cs).map fun (name, fromValue) =>
    let (value, behind) := plainValue fromValue
    { comment, name, value, fromValue, rest := skipComment behind }

theorem plainDefine?_length {comment : List String} {cs : List Char} {s : Site}
    (h : plainDefine? comment cs = some s) : s.rest.length < cs.length := by
  obtain ⟨⟨name, fromValue⟩, hd, rfl⟩ := Option.map_eq_some_iff.1 h
  have h1 := defineHead?_length hd
  have h2 := skipComment_length_le (plainValue fromValue).2
  have h3 := congrArg List.length (plainValue_append fromValue)
  simp only [List.length_append] at h3
  dsimp only
  omega

/-- The text of a line comment may not be empty, and not open with the sign of a comment that stands
behind its define. -/
def documentsNext (comment : List Char) : Bool :=
  comment ≠ [] && comment.head? ≠ some '<'

/-- The define that a text begins with, comment included, in the given style. The line styles only
begin at the start of a line. -/
def Style.site? : Style → (atLineStart : Bool) → List Char → Option Site
  | .block, _, cs =>
    match blockBody? cs with
    | none => none
    | some (body, rest) => plainDefine? (stripBlock body) (trimStart rest)
  | .line, true, cs =>
    match dropPrefix? ['/', '/', '/'] (cs.dropWhile isInlineBlank) with
    | none => none
    | some inside =>
      let comment := inside.takeWhile (· ≠ '\n')
      match inside.dropWhile (· ≠ '\n') with
      | [] => none
      | _ :: next =>
        if documentsNext comment then
          plainDefine? [String.ofList (trim comment)] (next.dropWhile isInlineBlank)
        else none
  | .trailing, true, cs =>
    match defineHead? (cs.dropWhile isInlineBlank) with
    | none => none
    | some (name, fromValue) =>
      (valueBeforeMark? fromValue).map fun (value, inside) =>
        { comment := [String.ofList (trim (inside.takeWhile (!isLineEnd ·)))]
          name, value, fromValue, rest := inside.dropWhile (!isLineEnd ·) }
  | _, false, _ => none

namespace Style

variable {atLineStart : Bool} {cs : List Char} {s : Site}

theorem block_site?_eq_some_iff :
    Style.block.site? atLineStart cs = some s
      ↔ ∃ body rest, blockBody? cs = some (body, rest)
          ∧ plainDefine? (stripBlock body) (trimStart rest) = some s := by
  constructor
  · intro h
    rw [Style.site?] at h
    split at h
    · cases h
    · next body rest hbody => exact ⟨body, rest, hbody, h⟩
  · rintro ⟨body, rest, hbody, h⟩
    rw [Style.site?, hbody]
    exact h

theorem line_site?_eq_some_iff :
    Style.line.site? atLineStart cs = some s
      ↔ atLineStart = true ∧ ∃ inside c next,
          dropPrefix? ['/', '/', '/'] (cs.dropWhile isInlineBlank) = some inside
          ∧ inside.dropWhile (· ≠ '\n') = c :: next
          ∧ documentsNext (inside.takeWhile (· ≠ '\n')) = true
          ∧ plainDefine? [String.ofList (trim (inside.takeWhile (· ≠ '\n')))]
              (next.dropWhile isInlineBlank) = some s := by
  cases atLineStart with
  | false => simp [Style.site?]
  | true =>
      rw [Style.site?]
      constructor
      · intro h
        split at h
        · cases h
        · next inside hinside =>
          dsimp only at h
          split at h
          · cases h
          · next c next hnext =>
            split at h
            · next hdocuments => exact ⟨rfl, inside, c, next, hinside, hnext, hdocuments, h⟩
            · cases h
      · rintro ⟨-, inside, c, next, hinside, hnext, hdocuments, h⟩
        rw [hinside]
        dsimp only
        rw [hnext]
        dsimp only
        rw [if_pos hdocuments]
        exact h

theorem trailing_site?_eq_some_iff :
    Style.trailing.site? atLineStart cs = some s
      ↔ atLineStart = true ∧ ∃ name fromValue value inside,
          defineHead? (cs.dropWhile isInlineBlank) = some (name, fromValue)
          ∧ valueBeforeMark? fromValue = some (value, inside)
          ∧ s = { comment := [String.ofList (trim (inside.takeWhile (!isLineEnd ·)))]
                  name, value, fromValue, rest := inside.dropWhile (!isLineEnd ·) } := by
  cases atLineStart with
  | false => simp [Style.site?]
  | true =>
      rw [Style.site?]
      constructor
      · intro h
        split at h
        · cases h
        · next name fromValue hhead =>
          obtain ⟨⟨value, inside⟩, hvalue, rfl⟩ := Option.map_eq_some_iff.1 h
          exact ⟨rfl, name, fromValue, value, inside, hhead, hvalue, rfl⟩
      · rintro ⟨-, name, fromValue, value, inside, hhead, hvalue, rfl⟩
        rw [hhead]
        dsimp only
        rw [hvalue]
        rfl

theorem site?_length {style : Style} (h : style.site? atLineStart cs = some s) :
    s.rest.length < cs.length := by
  have hblank := dropWhile_length_le isInlineBlank cs
  cases style with
  | block =>
      obtain ⟨body, rest, hbody, hdefine⟩ := block_site?_eq_some_iff.1 h
      have hbehind := blockBody?_length hbody
      have hrest := plainDefine?_length hdefine
      have htrim : (trimStart rest).length ≤ rest.length := dropWhile_length_le _ _
      omega
  | line =>
      obtain ⟨-, inside, c, next, hinside, hnext, -, hdefine⟩ := line_site?_eq_some_iff.1 h
      have hmark := dropPrefix?_length hinside
      have hrest := plainDefine?_length hdefine
      have htrim := dropWhile_length_le isInlineBlank next
      have hline := dropWhile_length_le (· ≠ '\n') inside
      simp only [hnext, List.length_cons, List.length_nil] at hmark hline
      omega
  | trailing =>
      obtain ⟨-, name, fromValue, value, inside, hhead, hvalue, rfl⟩ :=
        trailing_site?_eq_some_iff.1 h
      have hbehind := defineHead?_length hhead
      have hmark := valueBeforeMark?_length hvalue
      have hline := dropWhile_length_le (!isLineEnd ·) inside
      dsimp only
      omega

end Style

/-- Whether a line starts behind `c` where `cs` follows. -/
def startsLine (c : Char) (cs : List Char) : Bool :=
  c == '\n' || (c == '\r' && cs.head? ≠ some '\n')

/-- All defines of one style in the end `cs` of a text, each with the end of the text that begins with
it. A define ends at the end of a line. -/
def Style.sites (style : Style) (atLineStart : Bool) (cs : List Char) :
    List (List Char × Site) :=
  match cs with
  | [] => []
  | c :: cs =>
    match _h : style.site? atLineStart (c :: cs) with
    | some s => (c :: cs, s) :: style.sites false s.rest
    | none => style.sites (startsLine c cs) cs
termination_by cs.length
decreasing_by
  · exact Style.site?_length ‹_›
  · simp

/-! ## All defines of a text -/

/-- A define with its documentation: the lines of the comment, the name, the value and where it stands,
and where the define begins, comment included. -/
structure Define where
  comment : List String
  name : String
  value : String
  span : Span
  start : Nat
  deriving DecidableEq, Inhabited, Repr

/-- The define at a site in a text of `length` characters. -/
def Define.ofSite (length : Nat) (here : List Char) (s : Site) : Define :=
  let valueStart := length - s.fromValue.length
  { comment := s.comment
    name := String.ofList s.name
    value := String.ofList s.value
    span := ⟨valueStart, valueStart + s.value.length⟩
    start := length - here.length }

/-- Drops each define whose value stands where that of the one before it does. -/
def dropRepeated : List Define → List Define
  | d :: e :: ds =>
    if d.span.start = e.span.start then dropRepeated (d :: ds) else d :: dropRepeated (e :: ds)
  | ds => ds
termination_by ds => ds.length

/-- The documented defines of a text in the order in which they begin. Where styles find the same
value, the first of block, line and trailing counts. -/
def documentedDefines (text : List Char) : List Define :=
  let found := [Style.block, .line, .trailing].flatMap fun style =>
    (style.sites true text).map fun (here, s) => Define.ofSite text.length here s
  let byValue := found.mergeSort fun d e => d.span.start ≤ e.span.start
  (dropRepeated byValue).mergeSort fun d e => d.start ≤ e.start

end Configurator.Comment
