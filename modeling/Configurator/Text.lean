import Configurator.Text.Blank
import Configurator.Text.Word

/-!
# Texts as lists of characters

Everything that reads text works on `List Char`, and names and values are kept as `String`. Here are
the cuts that all readers share: trimming, the lines of a text, and its size in UTF-8 bytes.
-/

namespace Configurator.Text

/-! ## Trimming -/

/-- Drops the longest suffix whose members all satisfy `p`. -/
def dropEndWhile {α : Type} (p : α → Bool) (cs : List α) : List α :=
  (cs.reverse.dropWhile p).reverse

def trimStart (cs : List Char) : List Char :=
  cs.dropWhile isBlank

def trimEnd (cs : List Char) : List Char :=
  dropEndWhile isBlank cs

def trim (cs : List Char) : List Char :=
  trimEnd (trimStart cs)

theorem dropWhile_length_le (p : Char → Bool) (cs : List Char) :
    (cs.dropWhile p).length ≤ cs.length :=
  (List.dropWhile_sublist p).length_le

theorem dropEndWhile_append_exists {α : Type} (p : α → Bool) (cs : List α) :
    ∃ tail, cs = dropEndWhile p cs ++ tail ∧ ∀ c ∈ tail, p c = true := by
  refine ⟨(cs.reverse.takeWhile p).reverse, ?_, fun c hc => ?_⟩
  · rw [dropEndWhile, ← List.reverse_append, List.takeWhile_append_dropWhile, List.reverse_reverse]
  · exact List.all_eq_true.1 List.all_takeWhile c (List.mem_reverse.1 hc)

/-! ## Lines -/

/-- The lines of a text: a line ends at a line feed, a carriage return right before it belongs to the
line end, and what follows the last line feed is a line only if it is not empty. -/
def lines : List Char → List (List Char)
  | [] => []
  | '\n' :: cs => [] :: lines cs
  | '\r' :: '\n' :: cs => [] :: lines cs
  | c :: cs =>
    match lines cs with
    | [] => [[c]]
    | line :: rest => (c :: line) :: rest

/-! ## Prefixes and occurrences -/

/-- What follows `start` at the beginning of a text, or `none` if the text begins otherwise. -/
def dropPrefix? : (start cs : List Char) → Option (List Char)
  | [], cs => some cs
  | _ :: _, [] => none
  | s :: start, c :: cs => if s = c then dropPrefix? start cs else none

theorem dropPrefix?_eq_some_iff {start cs rest : List Char} :
    dropPrefix? start cs = some rest ↔ cs = start ++ rest := by
  induction start generalizing cs with
  | nil => simp [dropPrefix?, eq_comm]
  | cons s start ih =>
    cases cs with
    | nil => simp [dropPrefix?]
    | cons c cs =>
      by_cases h : s = c
      · simp [dropPrefix?, h, ih]
      · simp [dropPrefix?, h, Ne.symm h]

theorem dropPrefix?_length {start cs rest : List Char} (h : dropPrefix? start cs = some rest) :
    rest.length + start.length = cs.length := by
  rw [dropPrefix?_eq_some_iff.1 h, List.length_append, Nat.add_comm]

/-- The texts before and after the first occurrence of `mark`. -/
def splitAtFirst? (mark : List Char) : List Char → Option (List Char × List Char)
  | [] => if mark = [] then some ([], []) else none
  | c :: cs =>
    match dropPrefix? mark (c :: cs) with
    | some rest => some ([], rest)
    | none => (splitAtFirst? mark cs).map fun (before, after) => (c :: before, after)

theorem splitAtFirst?_eq_some {mark cs before after : List Char}
    (h : splitAtFirst? mark cs = some (before, after)) : cs = before ++ mark ++ after := by
  induction cs generalizing before with
  | nil =>
    unfold splitAtFirst? at h
    split at h
    · cases h
      simp_all
    · cases h
  | cons c cs ih =>
    unfold splitAtFirst? at h
    split at h
    · next rest hr =>
      cases h
      simpa using dropPrefix?_eq_some_iff.1 hr
    · obtain ⟨⟨b, a⟩, hba, heq⟩ := Option.map_eq_some_iff.1 h
      cases heq
      simp [ih hba]

/-- Whether `needle` occurs anywhere in the text. -/
def contains (needle cs : List Char) : Bool :=
  (splitAtFirst? needle cs).isSome

/-! ## Size -/

/-- Number of bytes of the UTF-8 form. Offsets that the outside sees are counted in these. -/
def byteSize : List Char → Nat
  | [] => 0
  | c :: cs => c.utf8Size + byteSize cs

@[simp] theorem byteSize_nil : byteSize [] = 0 := rfl

@[simp] theorem byteSize_cons (c : Char) (cs : List Char) :
    byteSize (c :: cs) = c.utf8Size + byteSize cs := rfl

@[simp] theorem byteSize_append (cs ds : List Char) :
    byteSize (cs ++ ds) = byteSize cs + byteSize ds := by
  induction cs with
  | nil => simp
  | cons c cs ih => simp [ih, Nat.add_assoc]

/-! ## Letter case -/

/-- Lower case of the ASCII letters; every other character stays. -/
def asciiLower (cs : List Char) : List Char :=
  cs.map Char.toLower

/-! ## Joining -/

/-- The items with `sep` between neighbours. -/
def join (sep : String) (items : List String) : String :=
  sep.intercalate items

end Configurator.Text
