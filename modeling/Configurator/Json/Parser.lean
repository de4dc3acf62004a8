import Configurator.Json.Basic
import Configurator.Text
import Configurator.Text.Integer

/-!
# From text to JSON documents

A strict reader: no comma behind the last item, no number with idle zeros, no control character inside
a string, and nothing but blanks around the document.
-/

namespace Configurator.Json

/-- What was read at the beginning of `cs`, and what follows it. -/
structure Read (α : Type) (cs : List Char) where
  item : α
  rest : List Char
  rest_shorter : rest.length < cs.length

namespace Read

def map {α β : Type} {cs : List Char} (f : α → β) (r : Read α cs) : Read β cs :=
  ⟨f r.item, r.rest, r.rest_shorter⟩

/-- What was read of a text as read of one that is longer. -/
def within {α : Type} {cs ds : List Char} (r : Read α ds) (h : ds.length ≤ cs.length) :
    Read α cs :=
  ⟨r.item, r.rest, Nat.lt_of_lt_of_le r.rest_shorter h⟩

end Read

def isBlank (c : Char) : Bool :=
  c == ' ' || c == '\t' || c == '\n' || c == '\r'

def skipBlanks (cs : List Char) : List Char :=
  cs.dropWhile isBlank

theorem skipBlanks_length_le (cs : List Char) : (skipBlanks cs).length ≤ cs.length :=
  Text.dropWhile_length_le _ _

/-- What follows a certain character that stands behind any blanks. -/
def skipSign? (sign : Char) (cs : List Char) : Option (List Char) :=
  match skipBlanks cs with
  | [] => none
  | c :: rest => if c = sign then some rest else none

theorem skipSign?_length {sign : Char} {cs rest : List Char} (h : skipSign? sign cs = some rest) :
    rest.length < cs.length := by
  have hb := skipBlanks_length_le cs
  unfold skipSign? at h
  split at h
  · cases h
  · next c behind hs =>
    split at h
    · cases h
      simp only [hs, List.length_cons] at hb
      omega
    · cases h

/-! ## Strings -/

/-- The number that four hexadecimal digits write. -/
def hexQuad? (a b c d : Char) : Option Nat :=
  Text.Integer.natural? 16 [a, b, c, d]

def isHighSurrogate (n : Nat) : Bool :=
  0xd800 ≤ n && n ≤ 0xdbff

def isLowSurrogate (n : Nat) : Bool :=
  0xdc00 ≤ n && n ≤ 0xdfff

/-- The character that two halves of a surrogate pair stand for. -/
def ofSurrogates (high low : Nat) : Char :=
  Char.ofNat (0x10000 + (high - 0xd800) * 0x400 + (low - 0xdc00))

/-- What a backslash and a letter stand for. -/
def escape? : Char → Option Char
  | '"' => some '"'
  | '\\' => some '\\'
  | '/' => some '/'
  | 'b' => some '\x08'
  | 'f' => some '\x0c'
  | 'n' => some '\n'
  | 'r' => some '\r'
  | 't' => some '\t'
  | _ => none

/-- The characters of a string up to its closing quote, and what follows that. The inner `none` says
that half of a surrogate pair stands alone. -/
def stringBody : List Char → Option (Option (List Char) × List Char)
  | [] => none
  | '"' :: rest => some (some [], rest)
  | '\\' :: 'u' :: a :: b :: c :: d :: '\\' :: 'u' :: e :: f :: g :: h :: rest =>
    match hexQuad? a b c d, hexQuad? e f g h with
    | some m, some n =>
      if isHighSurrogate m && isLowSurrogate n then
        (stringBody rest).map fun (cs, after) => (cs.map (ofSurrogates m n :: ·), after)
      else
        (stringBody ('\\' :: 'u' :: e :: f :: g :: h :: rest)).map fun (cs, after) =>
          (if isHighSurrogate m || isLowSurrogate m then none else cs.map (Char.ofNat m :: ·), after)
    | _, _ => none
  | '\\' :: 'u' :: a :: b :: c :: d :: rest =>
    match hexQuad? a b c d with
    | some m =>
      (stringBody rest).map fun (cs, after) =>
        (if isHighSurrogate m || isLowSurrogate m then none else cs.map (Char.ofNat m :: ·), after)
    | none => none
  | '\\' :: c :: rest =>
    match escape? c with
    | some d => (stringBody rest).map fun (cs, after) => (cs.map (d :: ·), after)
    | none => none
  | c :: rest =>
    if c = '\\' ∨ c.toNat < 0x20 then none
    else (stringBody rest).map fun (cs, after) => (cs.map (c :: ·), after)

theorem stringBody_length {cs after : List Char} {s : Option (List Char)}
    (h : stringBody cs = some (s, after)) : after.length < cs.length := by
  fun_induction stringBody cs generalizing s after with
  | case1 | case5 | case7 | case9 | case10 => cases h
  | case2 =>
    cases h
    simp
  | case3 | case4 | case6 | case8 | case11 =>
    rename_i ih
    obtain ⟨⟨s', a⟩, hs, heq⟩ := Option.map_eq_some_iff.1 h
    cases heq
    have := ih hs
    simp only [List.length_cons] at this ⊢
    omega

/-! ## Numbers -/

/-- One or more digits, and what follows them. -/
def digits? (cs : List Char) : Option (List Char × List Char) :=
  let ds := cs.takeWhile Char.isDigit
  if ds = [] then none else some (ds, cs.dropWhile Char.isDigit)

/-- The digits in front of a point; none leads with an idle zero. -/
def wholePart? : List Char → Option (List Char × List Char)
  | '0' :: rest => if rest.head?.any Char.isDigit then none else some (['0'], rest)
  | cs => digits? cs

/-- Skips the digits behind a point, if there is a point. -/
def skipFraction? : List Char → Option (List Char)
  | '.' :: rest => (digits? rest).map (·.2)
  | cs => some cs

/-- Skips an exponent, if there is one. -/
def skipExponent? : List Char → Option (List Char)
  | c :: rest =>
    if c = 'e' ∨ c = 'E' then
      match rest with
      | '+' :: rest => (digits? rest).map (·.2)
      | '-' :: rest => (digits? rest).map (·.2)
      | rest => (digits? rest).map (·.2)
    else some (c :: rest)
  | [] => some []

/-- A number at the beginning of a text. Minus zero is no integer. -/
def number? (cs : List Char) : Option (Option Int × List Char) := do
  let negative := cs.head? = some '-'
  let (whole, rest) ← wholePart? (if negative then cs.tail else cs)
  let behind ← skipExponent? (← skipFraction? rest)
  let value := (Text.Integer.natural? 10 whole).map fun n => if negative then -(n : Int) else n
  if behind = rest ∧ ¬(negative ∧ value = some 0) then some (value, behind)
  else some (none, behind)

/-! ## Documents -/

/-- Words that stand for a value. -/
def word? (cs : List Char) : Option (Json × List Char) :=
  match Text.dropPrefix? ['n', 'u', 'l', 'l'] cs with
  | some rest => some (.null, rest)
  | none =>
    match Text.dropPrefix? ['t', 'r', 'u', 'e'] cs with
    | some rest => some (.bool true, rest)
    | none =>
      (Text.dropPrefix? ['f', 'a', 'l', 's', 'e'] cs).map fun rest => (.bool false, rest)

/-- A word or a number at the beginning of a text. -/
def scalar? (cs : List Char) : Option (Read Json cs) :=
  match word? cs with
  | some (j, rest) => if h : rest.length < cs.length then some ⟨j, rest, h⟩ else none
  | none =>
    match number? cs with
    | some (n, rest) =>
      if h : rest.length < cs.length then some ⟨.number n, rest, h⟩ else none
    | none => none

mutual

/-- A value behind any blanks. -/
def value? (cs : List Char) : Option (Read Json cs) :=
  match hq : skipSign? '"' cs with
  | some inside =>
    match hs : stringBody inside with
    | some (s, rest) =>
      some ⟨.string (s.map String.ofList), rest,
        Nat.lt_trans (stringBody_length hs) (skipSign?_length hq)⟩
    | none => none
  | none =>
    match ha : skipSign? '[' cs with
    | some inside =>
      have hi := skipSign?_length ha
      match he : skipSign? ']' inside with
      | some rest => some ⟨.array [], rest, Nat.lt_trans (skipSign?_length he) hi⟩
      | none => (items? inside).map fun r => (r.map Json.array).within (Nat.le_of_lt hi)
    | none =>
      match ho : skipSign? '{' cs with
      | some inside =>
        have hi := skipSign?_length ho
        match he : skipSign? '}' inside with
        | some rest => some ⟨.object [], rest, Nat.lt_trans (skipSign?_length he) hi⟩
        | none => (members? inside).map fun r => (r.map Json.object).within (Nat.le_of_lt hi)
      | none => (scalar? (skipBlanks cs)).map (·.within (skipBlanks_length_le cs))
termination_by 2 * cs.length

/-- The items of an array up to its closing bracket. -/
def items? (cs : List Char) : Option (Read (List Json) cs) :=
  match value? cs with
  | none => none
  | some ⟨j, behind, h⟩ =>
    match he : skipSign? ']' behind with
    | some rest => some ⟨[j], rest, Nat.lt_trans (skipSign?_length he) h⟩
    | none =>
      match hc : skipSign? ',' behind with
      | none => none
      | some more =>
        have hm := Nat.lt_trans (skipSign?_length hc) h
        (items? more).map fun r => (r.map (j :: ·)).within (Nat.le_of_lt hm)
termination_by 2 * cs.length + 1

/-- The members of an object up to its closing brace. -/
def members? (cs : List Char) : Option (Read (List (Literal × Json)) cs) :=
  match hq : skipSign? '"' cs with
  | none => none
  | some inside =>
    match hs : stringBody inside with
    | none => none
    | some (name, afterName) =>
      match hd : skipSign? ':' afterName with
      | none => none
      | some toValue =>
        have hv := Nat.lt_trans (skipSign?_length hd)
          (Nat.lt_trans (stringBody_length hs) (skipSign?_length hq))
        match value? toValue with
        | none => none
        | some ⟨j, behind, h⟩ =>
          let member := (name.map String.ofList, j)
          match he : skipSign? '}' behind with
          | some rest =>
            some ⟨[member], rest, Nat.lt_trans (skipSign?_length he) (Nat.lt_trans h hv)⟩
          | none =>
            match hc : skipSign? ',' behind with
            | none => none
            | some more =>
              have hm := Nat.lt_trans (skipSign?_length hc) (Nat.lt_trans h hv)
              (members? more).map fun r => (r.map (member :: ·)).within (Nat.le_of_lt hm)
termination_by 2 * cs.length + 1

end

/-- The document that a text holds. -/
def parse? (text : String) : Option Json :=
  match value? text.toList with
  | some ⟨j, rest, _⟩ => if skipBlanks rest = [] then some j else none
  | none => none

end Configurator.Json
