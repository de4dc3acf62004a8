import Configurator.Text

/-!
# Documentation blocks

A documentation block opens with a slash and two stars and ends at the first star and slash behind the
blanks that follow. Its lines are kept without the stars that lead them, and without the blank lines
at its end.
-/

namespace Configurator.Comment

open Text

/-- The inside of the documentation block at the beginning of a text, up to the star and slash that
close it, and what follows them. -/
def blockBody? (cs : List Char) : Option (List Char × List Char) :=
  match dropPrefix? ['/', '*', '*'] cs with
  | none => none
  | some inside => splitAtFirst? ['*', '/'] (trimStart inside)

theorem blockBody?_length {cs body rest : List Char} (h : blockBody? cs = some (body, rest)) :
    rest.length < cs.length := by
  unfold blockBody? at h
  split at h
  · cases h
  · next inside hi =>
    have h1 := dropPrefix?_length hi
    have h2 : (trimStart inside).length ≤ inside.length := dropWhile_length_le _ _
    have h3 := congrArg List.length (splitAtFirst?_eq_some h)
    simp only [List.length_append, List.length_cons, List.length_nil] at h1 h3
    omega

def isStar (c : Char) : Bool :=
  c == '*'

/-- One line of a block without its blanks and leading stars. -/
def stripLine (line : List Char) : List Char :=
  trim ((trim line).dropWhile isStar)

/-- The lines of a block's inside. -/
def stripBlock (body : List Char) : List String :=
  dropEndWhile (· == "") ((lines (dropEndWhile isStar body)).map fun l => String.ofList (stripLine l))

/-- All documentation blocks of a text, each as its lines. A block that is not closed is none. -/
def docBlocks (cs : List Char) : List (List String) :=
  match cs with
  | [] => []
  | c :: cs =>
    match _h : blockBody? (c :: cs) with
    | some (body, rest) => stripBlock body :: docBlocks rest
    | none => docBlocks cs
termination_by cs.length
decreasing_by
  · exact blockBody?_length ‹_›
  · simp

end Configurator.Comment
