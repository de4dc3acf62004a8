import Configurator.Text

/-!
# Replacing in texts

All occurrences of a mark in a text are replaced at once, from left to right, and what is put in is not
looked at again.
-/

namespace Configurator.Text

/-- Puts a text in place of each occurrence of a mark that is not empty. The first `skip` characters
belong to an occurrence that has been replaced. -/
def replaceFrom (mark value : List Char) : (skip : Nat) → List Char → List Char
  | _, [] => []
  | skip + 1, _ :: cs => replaceFrom mark value skip cs
  | 0, c :: cs =>
    if mark.isPrefixOf (c :: cs) then value ++ replaceFrom mark value (mark.length - 1) cs
    else c :: replaceFrom mark value 0 cs

/-- Puts a text in place of each occurrence of a mark. An empty mark occurs before each character and
at the end. -/
def replace (mark value cs : List Char) : List Char :=
  if mark = [] then value ++ cs.flatMap (· :: value)
  else replaceFrom mark value 0 cs

end Configurator.Text
