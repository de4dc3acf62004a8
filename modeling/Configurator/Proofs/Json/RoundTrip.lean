import Mathlib.Tactic.ByContra
import Mathlib.Tactic.IntervalCases
import Configurator.Json.Printer
import Configurator.Proofs.Json.Reading
import Configurator.Proofs.Text.Integer

/-!
# Written documents are read back

`parse?` undoes `pretty` on all documents that say what they mean: each string is a text and each number
an integer (`parse?_pretty`).
-/

namespace Configurator.Json

/-- Whether a document holds only texts and integers. -/
inductive IsPlain : Json → Prop
  | null : IsPlain .null
  | bool (b : Bool) : IsPlain (.bool b)
  | number (n : Int) : IsPlain (.number (some n))
  | string (s : String) : IsPlain (.string (some s))
  | array {items : List Json} : (∀ j ∈ items, IsPlain j) → IsPlain (.array items)
  | object {members : List (Literal × Json)} : (∀ m ∈ members, ∃ name, m.1 = some name) →
      (∀ m ∈ members, IsPlain m.2) → IsPlain (.object members)

variable {cs gap rest : List Char}

/-! ## Blanks -/

theorem skipBlanks_append (hgap : ∀ c ∈ gap, isBlank c = true) (cs : List Char) :
    skipBlanks (gap ++ cs) = skipBlanks cs :=
  List.dropWhile_append_of_pos hgap

theorem skipBlanks_cons {c : Char} (hc : isBlank c = false) (cs : List Char) :
    skipBlanks (c :: cs) = c :: cs :=
  List.dropWhile_cons_of_neg (by simp [hc])

theorem skipSign?_append (hgap : ∀ c ∈ gap, isBlank c = true) (sign : Char) (cs : List Char) :
    skipSign? sign (gap ++ cs) = skipSign? sign cs := by
  rw [skipSign?, skipSign?, skipBlanks_append hgap]

theorem skipSign?_cons {c : Char} (hc : isBlank c = false) (sign : Char) (cs : List Char) :
    skipSign? sign (c :: cs) = if c = sign then some cs else none := by
  rw [skipSign?, skipBlanks_cons hc]

theorem isBlank_of_mem_newLine {level : Nat} : ∀ c ∈ newLine level, isBlank c = true := by
  intro c hc
  rcases List.mem_cons.1 hc with rfl | hc
  · rfl
  · rw [List.eq_of_mem_replicate hc]
    rfl

/-- A value may stand behind blanks. -/
theorem taken?_value?_append (hgap : ∀ c ∈ gap, isBlank c = true) (cs : List Char) :
    taken? (value? (gap ++ cs)) = taken? (value? cs) := by
  simp only [taken?_value?, skipSign?_append hgap]
  rw [skipBlanks_append hgap]

/-! ## Strings -/

theorem hexQuad?_control {n : Nat} (h : n < 0x20) :
    hexQuad? '0' '0' (hexDigit (n / 16)) (hexDigit (n % 16)) = some n := by
  interval_cases n <;> rfl

theorem stringBody_unicode_none {a b c d : Char} (h : hexQuad? a b c d = none) (cs : List Char) :
    stringBody ('\\' :: 'u' :: a :: b :: c :: d :: cs) = none := by
  unfold stringBody
  split
  case h_1 heq | h_2 heq => cases heq
  case h_3 heq =>
    cases heq
    simp [h]
  case h_4 heq =>
    cases heq
    simp [h]
  case h_5 hsingle heq =>
    cases heq
    exact absurd rfl (hsingle a b c d cs rfl)
  case h_6 hletter heq =>
    cases heq
    exact absurd rfl (hletter 'u' _ rfl)

/-- The number of a character that is no half of a surrogate pair stands for the character alone,
whatever follows. -/
theorem stringBody_unicode {a b c d : Char} {m : Nat} (hm : hexQuad? a b c d = some m)
    (hhigh : isHighSurrogate m = false) (hlow : isLowSurrogate m = false) (cs : List Char) :
    stringBody ('\\' :: 'u' :: a :: b :: c :: d :: cs)
      = (stringBody cs).map fun (s, after) => (s.map (Char.ofNat m :: ·), after) := by
  conv_lhs => unfold stringBody
  split
  case h_1 heq | h_2 heq => cases heq
  case h_3 e f g h rest heq =>
    cases heq
    cases hnext : hexQuad? e f g h with
    | none => simp [hm, stringBody_unicode_none hnext]
    | some n => simp [hm, hhigh, hlow]
  case h_4 heq =>
    cases heq
    simp [hm, hhigh, hlow]
  case h_5 hsingle heq =>
    cases heq
    exact absurd rfl (hsingle a b c d cs rfl)
  case h_6 hletter heq =>
    cases heq
    exact absurd rfl (hletter 'u' _ rfl)

theorem stringBody_letter {c d : Char} (h : escape? c = some d) (cs : List Char) :
    stringBody ('\\' :: c :: cs)
      = (stringBody cs).map fun (s, after) => (s.map (d :: ·), after) := by
  have hc : c ≠ 'u' := by
    rintro rfl
    cases h
  conv_lhs => unfold stringBody
  split
  case h_1 heq | h_2 heq => cases heq
  case h_3 heq | h_4 heq =>
    cases heq
    exact absurd rfl hc
  case h_5 heq =>
    cases heq
    simp [h]
  case h_6 hletter heq =>
    cases heq
    exact absurd rfl (hletter c cs rfl)

theorem stringBody_escape (c : Char) (cs : List Char) :
    stringBody (escape c ++ cs)
      = (stringBody cs).map fun (s, after) => (s.map (c :: ·), after) := by
  unfold escape
  split
  case h_1 | h_2 | h_3 | h_4 | h_5 | h_6 | h_7 => exact stringBody_letter rfl cs
  case h_8 hquote hbackslash _ _ _ _ _ =>
    split
    · next hcontrol =>
      have hm := hexQuad?_control hcontrol
      have hhigh : isHighSurrogate c.toNat = false := by
        simp only [isHighSurrogate, Bool.and_eq_false_iff, decide_eq_false_iff_not]
        omega
      have hlow : isLowSurrogate c.toNat = false := by
        simp only [isLowSurrogate, Bool.and_eq_false_iff, decide_eq_false_iff_not]
        omega
      have hread := stringBody_unicode hm hhigh hlow cs
      rwa [Char.ofNat_toNat] at hread
    · next hcontrol =>
      conv_lhs => unfold stringBody
      split
      case h_1 heq => cases heq
      case h_2 heq =>
        cases heq
        exact absurd rfl hquote
      case h_3 heq | h_4 heq | h_5 heq =>
        cases heq
        exact absurd rfl hbackslash
      case h_6 heq =>
        cases heq
        have hplain : ¬ (c = '\\' ∨ c.toNat < 0x20) := by
          rintro (rfl | hc)
          · exact hbackslash rfl
          · exact hcontrol hc
        rw [if_neg hplain]
        rfl

theorem stringBody_quoted (s rest : List Char) :
    stringBody (s.flatMap escape ++ '"' :: rest) = some (some s, rest) := by
  induction s with
  | nil => simp [stringBody]
  | cons c s ih =>
      rw [List.flatMap_cons, List.append_assoc, stringBody_escape, ih]
      rfl

theorem skipSign?_quoted (s : String) (rest : List Char) :
    skipSign? '"' (quoted s ++ rest) = some (s.toList.flatMap escape ++ '"' :: rest) := by
  simp [quoted, skipSign?_cons (c := '"') rfl]

/-! ## Numbers -/

/-- Whether a number in front of a text ends there. -/
def EndsNumber (rest : List Char) : Prop :=
  ∀ c ∈ rest.head?, c.isDigit = false ∧ c ≠ '.' ∧ c ≠ 'e' ∧ c ≠ 'E'

theorem digits?_append {ds : List Char} (hne : ds ≠ []) (hds : ∀ d ∈ ds, d.isDigit = true)
    (hrest : EndsNumber rest) : digits? (ds ++ rest) = some (ds, rest) := by
  have hstop : rest.takeWhile Char.isDigit = [] ∧ rest.dropWhile Char.isDigit = rest := by
    cases rest with
    | nil => exact ⟨rfl, rfl⟩
    | cons c rest =>
        have hc : ¬ c.isDigit = true := by simp [(hrest c rfl).1]
        exact ⟨List.takeWhile_cons_of_neg hc, List.dropWhile_cons_of_neg hc⟩
  rw [digits?, List.takeWhile_append_of_pos hds, List.dropWhile_append_of_pos hds, hstop.1, hstop.2,
    List.append_nil, if_neg hne]

/-- No number but zero begins with the digit zero. -/
theorem digits_head_ne_zero {n : Nat} (hn : n ≠ 0) {c : Char} {cs : List Char}
    (h : Text.Integer.digits n = c :: cs) : c ≠ '0' := by
  induction n using Nat.strongRecOn generalizing c cs with
  | ind n ih =>
    unfold Text.Integer.digits at h
    split at h
    · next hlt =>
      cases h
      interval_cases n <;> simp_all [Nat.digitChar]
    · next hle =>
      obtain ⟨d, ds, hds⟩ := List.exists_cons_of_ne_nil (Text.Integer.digits_ne_nil (n / 10))
      rw [hds] at h
      cases h
      exact ih (n / 10) (by omega) (by omega) hds

theorem wholePart?_digits (n : Nat) (hrest : EndsNumber rest) :
    wholePart? (Text.Integer.digits n ++ rest) = some (Text.Integer.digits n, rest) := by
  have hread := digits?_append (Text.Integer.digits_ne_nil n)
    (fun _ => Text.Integer.isDigit_of_mem_digits) hrest
  unfold wholePart?
  split
  · next behind heq =>
    -- an idle zero is the number zero
    have hzero : n = 0 := by
      by_contra hn
      obtain ⟨c, cs, hcs⟩ := List.exists_cons_of_ne_nil (Text.Integer.digits_ne_nil n)
      rw [hcs] at heq
      cases heq
      exact digits_head_ne_zero hn hcs rfl
    subst hzero
    have hdigits : Text.Integer.digits 0 = ['0'] := by simp [Text.Integer.digits, Nat.digitChar]
    rw [hdigits] at heq ⊢
    cases heq
    have hnone : ([].append rest).head?.any Char.isDigit = false := by
      cases rest with
      | nil => rfl
      | cons c rest => exact (hrest c rfl).1
    rw [hnone]
    rfl
  · exact hread

theorem skipFraction?_eq (hrest : EndsNumber rest) : skipFraction? rest = some rest := by
  unfold skipFraction?
  split
  · exact absurd rfl (hrest '.' rfl).2.1
  · rfl

theorem skipExponent?_eq (hrest : EndsNumber rest) : skipExponent? rest = some rest := by
  unfold skipExponent?
  split
  · next c behind =>
    have hc := hrest c rfl
    rw [if_neg (by simp [hc])]
  · rfl

theorem number?_of_ne_minus {whole : List Char} {n : Nat} (hsign : cs.head? ≠ some '-')
    (hwhole : wholePart? cs = some (whole, rest)) (hn : Text.Integer.natural? 10 whole = some n)
    (hrest : EndsNumber rest) : number? cs = some (some (n : Int), rest) := by
  simp [number?, hsign, hwhole, skipFraction?_eq hrest, skipExponent?_eq hrest, hn]

theorem number?_of_minus {whole : List Char} {n : Nat} (hwhole : wholePart? cs = some (whole, rest))
    (hn : Text.Integer.natural? 10 whole = some n) (hzero : n ≠ 0) (hrest : EndsNumber rest) :
    number? ('-' :: cs) = some (some (-(n : Int)), rest) := by
  simp [number?, hwhole, skipFraction?_eq hrest, skipExponent?_eq hrest, hn, hzero]

theorem number?_write (n : Int) (hrest : EndsNumber rest) :
    number? (Text.Integer.write n ++ rest) = some (some n, rest) := by
  cases n with
  | ofNat n =>
      obtain ⟨c, cs, hcs, hc, -⟩ := Text.Integer.exists_digits_eq_cons n
      refine number?_of_ne_minus ?_ (wholePart?_digits n hrest) (Text.Integer.natural?_digits n) hrest
      show (Text.Integer.digits n ++ rest).head? ≠ some '-'
      rw [hcs]
      exact fun h => (Text.Integer.not_sign_of_isDigit hc).1 (Option.some.inj h)
  | negSucc n =>
      exact number?_of_minus (wholePart?_digits (n + 1) hrest) (Text.Integer.natural?_digits (n + 1))
        (by omega) hrest

/-! ## Documents -/

theorem exists_write_eq_cons (n : Int) :
    ∃ c cs, Text.Integer.write n = c :: cs ∧ (c.isDigit = true ∨ c = '-') := by
  cases n with
  | ofNat n =>
      obtain ⟨c, cs, hcs, hc, -⟩ := Text.Integer.exists_digits_eq_cons n
      exact ⟨c, cs, hcs, .inl hc⟩
  | negSucc n => exact ⟨'-', _, rfl, .inr rfl⟩

theorem isBlank_of_begins_number {c : Char} (hc : c.isDigit = true ∨ c = '-') : isBlank c = false := by
  simp only [isBlank, Bool.or_eq_false_iff, beq_eq_false_iff_ne]
  refine ⟨⟨⟨?_, ?_⟩, ?_⟩, ?_⟩
  all_goals
    rintro rfl
    simp at hc

theorem word?_eq_none {c : Char} (hn : c ≠ 'n') (ht : c ≠ 't') (hf : c ≠ 'f') (cs : List Char) :
    word? (c :: cs) = none := by
  simp [word?, Text.dropPrefix?, Ne.symm hn, Ne.symm ht, Ne.symm hf]

/-- What a value begins with that is none between signs: not blank and none of the opening signs. -/
theorem taken?_value?_scalar {c : Char} (hc : isBlank c = false)
    (hopen : c ≠ '"' ∧ c ≠ '[' ∧ c ≠ '\x7b') (cs : List Char) :
    taken? (value? (c :: cs)) = taken? (scalar? (c :: cs)) := by
  rw [taken?_value?]
  simp only [skipSign?_cons hc, hopen, if_false]
  rw [skipBlanks_cons hc]

theorem taken?_value?_write (n : Int) (hrest : EndsNumber rest) :
    taken? (value? (Text.Integer.write n ++ rest)) = some (.number (some n), rest) := by
  obtain ⟨c, cs, hcs, hc⟩ := exists_write_eq_cons n
  have hne : ∀ d : Char, d.isDigit = false → d ≠ '-' → c ≠ d := by
    rintro d hd hminus rfl
    rcases hc with hc | rfl
    · rw [hc] at hd
      cases hd
    · exact hminus rfl
  have hnumber := number?_write n hrest
  rw [hcs] at hnumber ⊢
  rw [List.cons_append] at hnumber ⊢
  rw [taken?_value?_scalar (isBlank_of_begins_number hc) ⟨hne _ rfl (by decide), hne _ rfl (by decide),
    hne _ rfl (by decide)⟩]
  refine taken?_scalar? _ ?_ (by rw [List.length_cons, List.length_append]; omega)
  rw [word?_eq_none (hne _ rfl (by decide)) (hne _ rfl (by decide)) (hne _ rfl (by decide)), hnumber]
  rfl

theorem taken?_value?_null (rest : List Char) :
    taken? (value? (['n', 'u', 'l', 'l'] ++ rest)) = some (.null, rest) := by
  rw [List.cons_append, taken?_value?_scalar rfl (by simp)]
  refine taken?_scalar? _ ?_ (by rw [List.length_cons, List.length_append]; omega)
  simp [word?, Text.dropPrefix?]

theorem taken?_value?_true (rest : List Char) :
    taken? (value? (['t', 'r', 'u', 'e'] ++ rest)) = some (.bool true, rest) := by
  rw [List.cons_append, taken?_value?_scalar rfl (by simp)]
  refine taken?_scalar? _ ?_ (by rw [List.length_cons, List.length_append]; omega)
  simp [word?, Text.dropPrefix?]

theorem taken?_value?_false (rest : List Char) :
    taken? (value? (['f', 'a', 'l', 's', 'e'] ++ rest)) = some (.bool false, rest) := by
  rw [List.cons_append, taken?_value?_scalar rfl (by simp)]
  refine taken?_scalar? _ ?_ (by rw [List.length_cons, List.length_append]; omega)
  simp [word?, Text.dropPrefix?]

theorem taken?_value?_quoted (s : String) (rest : List Char) :
    taken? (value? (quoted s ++ rest)) = some (.string (some s), rest) := by
  rw [taken?_value?, skipSign?_quoted]
  simp [stringBody_quoted, String.ofList_toList]

theorem endsNumber_cons {c : Char} (hc : c.isDigit = false ∧ c ≠ '.' ∧ c ≠ 'e' ∧ c ≠ 'E')
    (cs : List Char) : EndsNumber (c :: cs) := by
  simpa [EndsNumber] using hc

theorem endsNumber_newLine (level : Nat) (cs : List Char) : EndsNumber (newLine level ++ cs) :=
  endsNumber_cons (by decide) _

theorem endsNumber_charsOfItems (level : Nat) (items : List Json) (hrest : EndsNumber rest) :
    EndsNumber (charsOfItems level items ++ rest) := by
  cases items with
  | nil => exact hrest
  | cons j items => exact endsNumber_cons (by decide) _

theorem endsNumber_charsOfMembers (level : Nat) (members : List (Literal × Json))
    (hrest : EndsNumber rest) : EndsNumber (charsOfMembers level members ++ rest) := by
  cases members with
  | nil => exact hrest
  | cons m members => exact endsNumber_cons (by decide) _

/-- Whether the text of a document is read as that, in front of anything that ends a number. -/
def IsReadBack (j : Json) : Prop :=
  ∀ level rest, EndsNumber rest → taken? (value? (chars level j ++ rest)) = some (j, rest)

theorem taken?_items?_chars {first : Json} {items : List Json}
    (h : ∀ j ∈ first :: items, IsReadBack j) (level closing : Nat) (rest : List Char) :
    taken? (items? (newLine level ++ (chars level first
        ++ (charsOfItems level items ++ (newLine closing ++ ']' :: rest)))))
      = some (first :: items, rest) := by
  have hends : ∀ items, EndsNumber (charsOfItems level items ++ (newLine closing ++ ']' :: rest)) :=
    fun items => endsNumber_charsOfItems level items (endsNumber_newLine closing _)
  induction items generalizing first with
  | nil =>
      rw [taken?_items?, taken?_value?_append isBlank_of_mem_newLine,
        h first List.mem_cons_self level _ (hends []), Option.bind_some]
      simp only [charsOfItems, List.nil_append, skipSign?_append isBlank_of_mem_newLine,
        skipSign?_cons (c := ']') rfl, if_true]
  | cons second items ih =>
      have hcomma : charsOfItems level (second :: items) ++ (newLine closing ++ ']' :: rest)
          = ',' :: (newLine level ++ (chars level second
            ++ (charsOfItems level items ++ (newLine closing ++ ']' :: rest)))) := by
        simp [charsOfItems]
      rw [taken?_items?, taken?_value?_append isBlank_of_mem_newLine,
        h first List.mem_cons_self level _ (hends _), Option.bind_some, hcomma]
      simp only [skipSign?_cons (c := ',') rfl, if_true, Option.bind_some,
        ih fun j hj => h j (List.mem_cons_of_mem _ hj)]
      rfl

/-- A member behind the sign or the comma in front of it. -/
def charsOfMember (level : Nat) (name : String) (j : Json) : List Char :=
  newLine level ++ (quoted name ++ (':' :: ' ' :: chars level j))

/-- Up to its value every member is read in the same way. -/
theorem taken?_members?_member (name : String) {j : Json} (hj : IsReadBack j) (level : Nat)
    {behind : List Char} (hbehind : EndsNumber behind) :
    taken? (members? (charsOfMember level name j ++ behind)) =
      match skipSign? '\x7d' behind with
      | some rest => some ([(some name, j)], rest)
      | none =>
        (skipSign? ',' behind).bind fun more =>
          (taken? (members? more)).map (Prod.map ((some name, j) :: ·) id) := by
  have hspace : taken? (value? (' ' :: (chars level j ++ behind))) = some (j, behind) := by
    rw [← List.singleton_append, taken?_value?_append (by simp [isBlank])]
    exact hj level behind hbehind
  have hsplit : charsOfMember level name j ++ behind
      = newLine level ++ (quoted name ++ (':' :: ' ' :: (chars level j ++ behind))) := by
    simp [charsOfMember]
  rw [hsplit, taken?_members?, skipSign?_append isBlank_of_mem_newLine, skipSign?_quoted,
    Option.bind_some, stringBody_quoted, Option.bind_some]
  cases hclose : skipSign? '\x7d' behind <;>
    simp only [skipSign?_cons (c := ':') rfl, if_true, Option.bind_some, hspace, Option.map_some,
      String.ofList_toList, hclose]

theorem taken?_members?_chars (name : String) {first : Json} {members : List (Literal × Json)}
    (hfirst : IsReadBack first) (hnames : ∀ m ∈ members, ∃ name, m.1 = some name)
    (h : ∀ m ∈ members, IsReadBack m.2) (level closing : Nat) (rest : List Char) :
    taken? (members? (charsOfMember level name first
        ++ (charsOfMembers level members ++ (newLine closing ++ '\x7d' :: rest))))
      = some ((some name, first) :: members, rest) := by
  have hends : ∀ members,
      EndsNumber (charsOfMembers level members ++ (newLine closing ++ '\x7d' :: rest)) :=
    fun members => endsNumber_charsOfMembers level members (endsNumber_newLine closing _)
  induction members generalizing name first with
  | nil =>
      rw [taken?_members?_member name hfirst level (hends [])]
      simp only [charsOfMembers, List.nil_append, skipSign?_append isBlank_of_mem_newLine,
        skipSign?_cons (c := '\x7d') rfl, if_true]
  | cons m members ih =>
      obtain ⟨⟨second, hsecond⟩, hmore⟩ := List.forall_mem_cons.1 hnames
      obtain ⟨hm, hvalues⟩ := List.forall_mem_cons.1 h
      obtain ⟨literal, j⟩ := m
      cases hsecond
      have hcomma : charsOfMembers level ((some second, j) :: members)
            ++ (newLine closing ++ '\x7d' :: rest)
          = ',' :: (charsOfMember level second j
            ++ (charsOfMembers level members ++ (newLine closing ++ '\x7d' :: rest))) := by
        simp [charsOfMembers, charsOfMember]
      rw [taken?_members?_member name hfirst level (hends _), hcomma]
      simp only [skipSign?_cons (c := ',') rfl, if_true, Option.bind_some,
        ih second hm hmore hvalues]
      rfl

theorem exists_chars_eq_cons (level : Nat) (j : Json) :
    ∃ c cs, chars level j = c :: cs ∧ isBlank c = false ∧ c ≠ ']' := by
  match j with
  | .null => exact ⟨'n', _, rfl, rfl, by decide⟩
  | .bool true => exact ⟨'t', _, rfl, rfl, by decide⟩
  | .bool false => exact ⟨'f', _, rfl, rfl, by decide⟩
  | .number n =>
      obtain ⟨c, cs, hcs, hc⟩ := exists_write_eq_cons (n.getD 0)
      refine ⟨c, cs, hcs, isBlank_of_begins_number hc, ?_⟩
      rintro rfl
      simp at hc
  | .string s => exact ⟨'"', _, rfl, rfl, by decide⟩
  | .array [] | .array (_ :: _) => exact ⟨'[', _, rfl, rfl, by decide⟩
  | .object [] | .object ((_, _) :: _) => exact ⟨'\x7b', _, rfl, rfl, by decide⟩

theorem isReadBack_array {items : List Json} (h : ∀ j ∈ items, IsReadBack j) :
    IsReadBack (.array items) := by
  intro level rest _
  have hquote : ∀ cs, skipSign? '"' ('[' :: cs) = none := fun cs => skipSign?_cons rfl _ _
  have hopen : ∀ cs, skipSign? '[' ('[' :: cs) = some cs := fun cs => skipSign?_cons rfl _ _
  cases items with
  | nil =>
      show taken? (value? ('[' :: ']' :: rest)) = _
      rw [taken?_value?, hquote, hopen]
      simp [skipSign?_cons (c := ']') rfl]
  | cons first items =>
      have hitems := taken?_items?_chars h (level + 1) level rest
      have hsplit : chars level (.array (first :: items)) ++ rest
          = '[' :: (newLine (level + 1) ++ (chars (level + 1) first
            ++ (charsOfItems (level + 1) items ++ (newLine level ++ ']' :: rest)))) := by
        simp [chars]
      have hnone : skipSign? ']' (newLine (level + 1) ++ (chars (level + 1) first
          ++ (charsOfItems (level + 1) items ++ (newLine level ++ ']' :: rest)))) = none := by
        obtain ⟨c, cs, hcs, hblank, hc⟩ := exists_chars_eq_cons (level + 1) first
        rw [skipSign?_append isBlank_of_mem_newLine, hcs, List.cons_append, skipSign?_cons hblank,
          if_neg hc]
      rw [hsplit, taken?_value?, hquote, hopen]
      dsimp only
      rw [hnone, hitems]
      rfl

theorem isReadBack_object {members : List (Literal × Json)}
    (hnames : ∀ m ∈ members, ∃ name, m.1 = some name) (h : ∀ m ∈ members, IsReadBack m.2) :
    IsReadBack (.object members) := by
  intro level rest _
  have hquote : ∀ cs, skipSign? '"' ('\x7b' :: cs) = none := fun cs => skipSign?_cons rfl _ _
  have hbracket : ∀ cs, skipSign? '[' ('\x7b' :: cs) = none := fun cs => skipSign?_cons rfl _ _
  have hopen : ∀ cs, skipSign? '\x7b' ('\x7b' :: cs) = some cs := fun cs => skipSign?_cons rfl _ _
  cases members with
  | nil =>
      show taken? (value? ('\x7b' :: '\x7d' :: rest)) = _
      rw [taken?_value?, hquote, hbracket, hopen]
      simp [skipSign?_cons (c := '\x7d') rfl]
  | cons m members =>
      obtain ⟨⟨name, hname⟩, hmore⟩ := List.forall_mem_cons.1 hnames
      obtain ⟨hm, hvalues⟩ := List.forall_mem_cons.1 h
      obtain ⟨literal, first⟩ := m
      cases hname
      have hmembers := taken?_members?_chars name hm hmore hvalues (level + 1) level rest
      have hsplit : chars level (.object ((some name, first) :: members)) ++ rest
          = '\x7b' :: (charsOfMember (level + 1) name first
            ++ (charsOfMembers (level + 1) members ++ (newLine level ++ '\x7d' :: rest))) := by
        simp [chars, charsOfMember]
      have hnone : skipSign? '\x7d' (charsOfMember (level + 1) name first
          ++ (charsOfMembers (level + 1) members ++ (newLine level ++ '\x7d' :: rest))) = none := by
        rw [charsOfMember, List.append_assoc, skipSign?_append isBlank_of_mem_newLine, quoted,
          List.append_assoc, List.cons_append, List.cons_append, skipSign?_cons rfl]
        rfl
      rw [hsplit, taken?_value?, hquote, hbracket, hopen]
      dsimp only
      rw [hnone, hmembers]
      rfl

theorem IsPlain.isReadBack {j : Json} (h : j.IsPlain) : IsReadBack j := by
  induction h with
  | null => exact fun level rest _ => taken?_value?_null rest
  | bool b =>
      cases b with
      | true => exact fun level rest _ => taken?_value?_true rest
      | false => exact fun level rest _ => taken?_value?_false rest
  | number n => exact fun level rest hrest => taken?_value?_write n hrest
  | string s => exact fun level rest _ => taken?_value?_quoted s rest
  | array _ ih => exact isReadBack_array ih
  | object hnames _ ih => exact isReadBack_object hnames ih

/-- What is written of a document of texts and integers is read as that document. -/
theorem parse?_pretty {j : Json} (h : j.IsPlain) : parse? j.pretty = some j := by
  have hread : taken? (value? j.pretty.toList) = some (j, []) := by
    rw [pretty, String.toList_ofList, ← List.append_nil (chars 0 j)]
    exact h.isReadBack 0 [] (by simp [EndsNumber])
  exact parse?_eq hread rfl

end Configurator.Json
