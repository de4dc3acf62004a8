import Configurator.Text

/-!
# File patterns

A pattern matches a path as a whole. `?` stands for any character and `*` for any run of characters,
slashes included; `**` stands for any number of directories and has to be a part of the path by
itself; brackets stand for one character of a set, or out of a set if it opens with `!`.
-/

namespace Configurator

/-- Part of a set of characters. -/
inductive Glob.Specifier where
  | single (c : Char)
  | range (first last : Char)
  deriving DecidableEq, Inhabited, Repr

inductive Glob.Token where
  | char (c : Char)
  | anyChar
  | within (set : List Specifier)
  | except (set : List Specifier)
  | sequence
  | directories
  deriving DecidableEq, Inhabited, Repr

structure Glob where
  tokens : List Glob.Token
  deriving DecidableEq, Inhabited, Repr

namespace Glob

/-! ## Reading -/

/-- The specifiers between brackets: a minus between two characters makes a range. -/
def specifiers : List Char → List Specifier
  | first :: '-' :: last :: cs => .range first last :: specifiers cs
  | c :: cs => .single c :: specifiers cs
  | [] => []

/-- The set that opens a text, its first character being part of it in any case, and what follows the
closing bracket. -/
def set? : List Char → Option (List Specifier × List Char)
  | [] => none
  | c :: cs =>
    match cs.dropWhile (· ≠ ']') with
    | [] => none
    | _ :: rest => some (specifiers (c :: cs.takeWhile (· ≠ ']')), rest)

theorem set?_length {cs rest : List Char} {set : List Specifier} (h : set? cs = some (set, rest)) :
    rest.length < cs.length := by
  cases cs with
  | nil => simp [set?] at h
  | cons c cs =>
    simp only [set?] at h
    split at h
    · cases h
    · next d rest' hd =>
      cases h
      have := Text.dropWhile_length_le (· ≠ ']') cs
      simp only [hd, List.length_cons] at this ⊢
      omega

/-- The set behind an opening bracket. -/
def bracket? : List Char → Option (Token × List Char)
  | '!' :: cs => (set? cs).map fun (set, rest) => (.except set, rest)
  | cs => (set? cs).map fun (set, rest) => (.within set, rest)

theorem bracket?_length {cs rest : List Char} {t : Token} (h : bracket? cs = some (t, rest)) :
    rest.length < cs.length := by
  unfold bracket? at h
  split at h <;> obtain ⟨⟨set, r⟩, hs, heq⟩ := Option.map_eq_some_iff.1 h <;> cases heq
  · have := set?_length hs
    simp only [List.length_cons]
    omega
  · exact set?_length hs

/-- Adds the sign for directories, one of several in a row being enough behind other tokens. -/
def pushDirectories (tokens : List Token) : List Token :=
  if 1 < tokens.length ∧ tokens.getLast? = some .directories then tokens
  else tokens ++ [.directories]

/-- Reads the rest of a pattern behind the character `before`, with the tokens so far. -/
def readFrom (before : Option Char) (tokens : List Token) (cs : List Char) : Option (List Token) :=
  match cs with
  | [] => some tokens
  | '?' :: rest => readFrom (some '?') (tokens ++ [.anyChar]) rest
  | '*' :: '*' :: '*' :: _ => none
  | '*' :: '*' :: rest =>
    if before = none ∨ before = some '/' then
      match rest with
      | [] => some (pushDirectories tokens)
      | '/' :: rest' => readFrom (some '/') (pushDirectories tokens) rest'
      | _ => none
    else none
  | '*' :: rest => readFrom (some '*') (tokens ++ [.sequence]) rest
  | '[' :: rest =>
    match _h : bracket? rest with
    | some (t, rest') => readFrom (some ']') (tokens ++ [t]) rest'
    | none => none
  | c :: rest => readFrom (some c) (tokens ++ [.char c]) rest
termination_by cs.length
decreasing_by
  all_goals simp only [List.length_cons]
  all_goals try omega
  have hlen := bracket?_length ‹_›
  omega

/-- The pattern that a text writes, if it is well formed. -/
def parse? (text : String) : Option Glob :=
  (readFrom none [] text.toList).map Glob.mk

/-! ## Matching -/

def Specifier.admits (c : Char) : Specifier → Bool
  | .single d => c == d
  | .range first last => first ≤ c && c ≤ last

/-- Whether a token that stands for one character stands for this one. -/
def Token.admits (c : Char) : Token → Bool
  | .char d => c == d
  | .anyChar => true
  | .within set => set.any (·.admits c)
  | .except set => !set.any (·.admits c)
  | .sequence => true
  | .directories => true

inductive Outcome where
  | matched
  | mismatch
  /-- The path ended too early; no longer run for an earlier sign can mend that. -/
  | exhausted
  deriving DecidableEq, Inhabited, Repr

/-- Tries `rest` behind ever longer runs, starting with the empty one if `here`. The run of a
directories sign is empty or ends in a slash. -/
def tryRuns (rest : List Char → Outcome) (directories : Bool) (here : Bool) :
    List Char → Outcome
  | [] => rest []
  | c :: cs =>
    match if here then rest (c :: cs) else .mismatch with
    | .mismatch => tryRuns rest directories (!directories || c == '/') cs
    | outcome => outcome

def matchTokens : List Token → List Char → Outcome
  | [], cs => if cs = [] then .matched else .mismatch
  | .sequence :: ts, cs => tryRuns (matchTokens ts) false true cs
  | .directories :: ts, cs => tryRuns (matchTokens ts) true true cs
  | t :: ts, cs =>
    match cs with
    | [] => .exhausted
    | c :: cs => if t.admits c then matchTokens ts cs else .mismatch

/-- Whether a pattern matches a path. -/
def admits (g : Glob) (path : String) : Bool :=
  matchTokens g.tokens path.toList = .matched

end Glob

end Configurator
