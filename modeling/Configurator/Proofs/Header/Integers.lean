import Configurator.Proofs.Catalog.Change
import Configurator.Proofs.Header.Spelling
import Configurator.Proofs.Text.Integer

/-!
# Integers that parameters take

A parameter keeps an integer as it was written, without its suffixes, and so it gets into a header.
There it has to be a literal (`Text.Integer.literal?`), which has one sign at most. The reader of new
values takes a minus off and leaves the rest to readers that look for a sign again, in front of decimal
digits and behind `0x`. As long as no sign stands behind the first character it reads exactly the integer
that a literal writes (`readInteger?_eq_some_iff`). Otherwise it can take `--5` for five, and can get the
least integer to negate, which has no opposite in the range (`setParameter_integer_iff`).
-/

namespace Configurator

open Text

/-! ## Literals -/

namespace Text.Integer

variable {base n : Nat} {cs : List Char}

def isSign (c : Char) : Bool :=
  c == '-' || c == '+'

/-- Whether no sign stands behind the first character. -/
def SignsFirst (cs : List Char) : Prop :=
  ∀ c ∈ cs.tail, isSign c = false

/-- The number that decimal digits write, or hexadecimal digits behind `0x`. -/
def unsigned? : List Char → Option Nat
  | '0' :: 'x' :: digits => natural? 16 digits
  | '0' :: 'X' :: digits => natural? 16 digits
  | digits => natural? 10 digits

/-- The integer that a literal writes: one sign at most, then decimal digits, or hexadecimal digits
behind `0x`. It may be of any size. -/
def literal? : List Char → Option Int
  | '-' :: digits => (unsigned? digits).map fun n : Nat => -(n : Int)
  | '+' :: digits => (unsigned? digits).map fun n : Nat => (n : Int)
  | digits => (unsigned? digits).map fun n : Nat => (n : Int)

theorem isSign_eq_false_iff {c : Char} : isSign c = false ↔ c ≠ '-' ∧ c ≠ '+' := by
  simp [isSign]

theorem not_isSign_of_digitIn? {c : Char} (h : (digitIn? base c).isSome = true) :
    isSign c = false := by
  have hnone : ∀ d : Char, digitValue d = none → (digitIn? base d).isSome = false := by
    intro d hd
    rw [digitIn?, hd]
    rfl
  rw [isSign_eq_false_iff]
  constructor
  · rintro rfl
    rw [hnone '-' (by decide)] at h
    cases h
  · rintro rfl
    rw [hnone '+' (by decide)] at h
    cases h

theorem not_isSign_of_natural? (h : natural? base cs = some n) : ∀ c ∈ cs, isSign c = false :=
  fun c hc => not_isSign_of_digitIn? ((isSome_digitIn?_of_natural? h).2 c hc)

theorem not_isSign_of_unsigned? (h : unsigned? cs = some n) : ∀ c ∈ cs, isSign c = false := by
  have hletters : isSign '0' = false ∧ isSign 'x' = false ∧ isSign 'X' = false := by decide
  unfold unsigned? at h
  split at h
  · rw [List.forall_mem_cons, List.forall_mem_cons]
    exact ⟨hletters.1, hletters.2.1, not_isSign_of_natural? h⟩
  · rw [List.forall_mem_cons, List.forall_mem_cons]
    exact ⟨hletters.1, hletters.2.2, not_isSign_of_natural? h⟩
  · exact not_isSign_of_natural? h

/-- Literals have no second sign. -/
theorem signsFirst_of_literal? {n : Int} (h : literal? cs = some n) : SignsFirst cs := by
  unfold literal? at h
  split at h <;> obtain ⟨m, hm, -⟩ := Option.map_eq_some_iff.1 h
  · exact not_isSign_of_unsigned? hm
  · exact not_isSign_of_unsigned? hm
  · exact fun c hc => not_isSign_of_unsigned? hm c (List.mem_of_mem_tail hc)

/-- A text with no sign behind its first character has one there or none. -/
theorem SignsFirst.cases (h : SignsFirst cs) :
    (∃ rest, cs = '-' :: rest ∧ ∀ c ∈ rest, isSign c = false)
      ∨ (∃ rest, cs = '+' :: rest ∧ ∀ c ∈ rest, isSign c = false)
      ∨ ∀ c ∈ cs, isSign c = false := by
  cases cs with
  | nil => exact .inr (.inr (by simp))
  | cons c rest =>
      by_cases hminus : c = '-'
      · exact .inl ⟨rest, hminus ▸ rfl, h⟩
      · by_cases hplus : c = '+'
        · exact .inr (.inl ⟨rest, hplus ▸ rfl, h⟩)
        · exact .inr (.inr (List.forall_mem_cons.2 ⟨isSign_eq_false_iff.2 ⟨hminus, hplus⟩, h⟩))

theorem literal?_of_not_isSign (h : ∀ c ∈ cs, isSign c = false) :
    literal? cs = (unsigned? cs).map fun n : Nat => (n : Int) := by
  unfold literal?
  split
  · exact absurd (h '-' List.mem_cons_self) (by decide)
  · exact absurd (h '+' List.mem_cons_self) (by decide)
  · rfl

/-- Decimal digits are not taken for hexadecimal ones. -/
theorem unsigned?_of_natural? (h : natural? 10 cs = some n) : unsigned? cs = some n := by
  obtain ⟨-, hdigits⟩ := isSome_digitIn?_of_natural? h
  unfold unsigned?
  split
  · exact absurd (hdigits 'x' (by simp)) (by decide)
  · exact absurd (hdigits 'X' (by simp)) (by decide)
  · exact h

/-- Without signs the digits decide alone. -/
theorem read?_of_not_isSign (h : ∀ c ∈ cs, isSign c = false) :
    read? base cs = (natural? base cs).bind fun n => inRange? n := by
  cases cs with
  | nil => rfl
  | cons c cs => exact read?_of_ne_sign (isSign_eq_false_iff.1 (h c List.mem_cons_self)) cs

theorem inRange?_eq_some_iff {m k : Int} : inRange? m = some k ↔ InRange m ∧ m = k := by
  simp [inRange?]

/-- A number is in range if it does not exceed the greatest integer. -/
theorem inRange_natCast_iff : InRange n ↔ (n : Int) ≤ greatest := by
  unfold InRange least
  omega

end Text.Integer

open Text.Integer

/-! ## Digits of a value -/

namespace IntegerLiteral

/-- What is left of a new value without blanks and suffixes. -/
def digitsOf (text : String) : List Char :=
  (ofValue (String.ofList (trim text.toList))).digits.toList

/-- The digits of a trimmed value have no blanks around them. -/
theorem trim_digits_ofValue {value : String} (h : trim value.toList = value.toList) :
    trim (ofValue value).digits.toList = (ofValue value).digits.toList := by
  rcases ofValue_cases value with hnumeric | hsame
  · obtain ⟨letters, blanks, hsplit, -, -, -⟩ := ofValue_spelling value
    rw [isNumeric, Bool.and_eq_true] at hnumeric
    refine trim_eq_self (fun c rest hdigits => ?_) fun before c hdigits => ?_
    · rw [hdigits, List.cons_append] at hsplit
      exact not_isBlank_of_trim.1 (h.trans hsplit)
    · rw [hdigits, List.getLast?_concat] at hnumeric
      exact not_isBlank_of_isHexDigit (by simpa using hnumeric.1)
  · rw [hsame]
    exact h

theorem trim_digitsOf (text : String) : trim (digitsOf text) = digitsOf text :=
  trim_digits_ofValue (by simp)

end IntegerLiteral

namespace Parameter

variable {p q : Parameter} {cs : List Char} {n : Int} {text : String} {choices : Option ValueList}

/-! ## Reading -/

/-- The integer that is read behind a minus, or without one. -/
def magnitude? : List Char → Option Int
  | '0' :: 'x' :: digits => read? 16 digits
  | '0' :: 'X' :: digits => read? 16 digits
  | digits => read? 10 digits

/-- The integer that is negated when a text without blanks around it is read. -/
def negated? : List Char → Option Int
  | '-' :: rest => magnitude? rest
  | _ => none

theorem readInteger?_eq (text : List Char) :
    readInteger? text = match trim text with
      | '-' :: rest => (negated? ('-' :: rest)).map opposite
      | rest => magnitude? rest := rfl

theorem inRange_of_magnitude? (h : magnitude? cs = some n) : InRange n := by
  unfold magnitude? at h
  split at h <;> exact inRange_of_read? h

theorem inRange_of_negated? (h : negated? cs = some n) : InRange n := by
  unfold negated? at h
  split at h
  · exact inRange_of_magnitude? h
  · cases h

/-- An integer that is read ends in a hexadecimal digit. -/
theorem exists_last_of_magnitude? (h : magnitude? cs = some n) :
    ∃ before c, cs = before ++ [c] ∧ IntegerLiteral.isHexDigit c = true := by
  have hdecimal : ∀ c, (digitIn? 10 c).isSome = true → IntegerLiteral.isHexDigit c = true := by
    intro c hc
    unfold IntegerLiteral.isHexDigit digitIn? at *
    cases hvalue : digitValue c with
    | none => simp [hvalue] at hc
    | some d =>
        simp only [hvalue, Option.isSome_filter, Option.any_some, decide_eq_true_eq] at hc ⊢
        omega
  unfold magnitude? at h
  split at h
  · obtain ⟨before, c, rfl, hc⟩ := exists_last_of_read? h
    exact ⟨'0' :: 'x' :: before, c, rfl, hc⟩
  · obtain ⟨before, c, rfl, hc⟩ := exists_last_of_read? h
    exact ⟨'0' :: 'X' :: before, c, rfl, hc⟩
  · obtain ⟨before, c, rfl, hc⟩ := exists_last_of_read? h
    exact ⟨before, c, rfl, hdecimal c hc⟩

theorem exists_last_of_readInteger? (h : readInteger? cs = some n) :
    ∃ before c, trim cs = before ++ [c] ∧ IntegerLiteral.isHexDigit c = true := by
  rw [readInteger?_eq] at h
  split at h
  · next rest hrest =>
    obtain ⟨m, hm, -⟩ := Option.map_eq_some_iff.1 h
    obtain ⟨before, c, rfl, hc⟩ := exists_last_of_magnitude? hm
    exact ⟨'-' :: before, c, hrest, hc⟩
  · exact exists_last_of_magnitude? h

theorem magnitude?_of_not_isSign (h : ∀ c ∈ cs, isSign c = false) :
    magnitude? cs = (unsigned? cs).bind fun n => inRange? n := by
  unfold magnitude? unsigned?
  split
  · exact read?_of_not_isSign fun c hc => h c (by simp [hc])
  · exact read?_of_not_isSign fun c hc => h c (by simp [hc])
  · exact read?_of_not_isSign h

theorem magnitude?_eq_some_iff (h : ∀ c ∈ cs, isSign c = false) :
    magnitude? cs = some n ↔ ∃ m : Nat, unsigned? cs = some m ∧ (m : Int) ≤ greatest ∧ m = n := by
  simp only [magnitude?_of_not_isSign h, Option.bind_eq_some_iff, inRange?_eq_some_iff,
    inRange_natCast_iff]

/-- The least integer is the only one whose opposite is out of range. -/
theorem opposite_eq_neg_iff (h : InRange n) : opposite n = -n ↔ n ≠ least := by
  obtain ⟨hlow, hhigh⟩ := h
  constructor
  · rintro heq rfl
    exact absurd heq (by decide)
  · intro hne
    unfold least greatest at *
    exact Int.bmod_eq_of_le (by omega) (by omega)

theorem opposite_natCast {k : Nat} (h : (k : Int) ≤ greatest) : opposite k = -k := by
  refine (opposite_eq_neg_iff (inRange_natCast_iff.2 h)).2 ?_
  unfold least
  omega

/-- Whether a text begins with a plus in front of `0x`. -/
def isPlusHex : List Char → Bool
  | '+' :: '0' :: 'x' :: _ => true
  | '+' :: '0' :: 'X' :: _ => true
  | _ => false

/-- Behind a plus only decimal digits are looked for. -/
theorem magnitude?_plus_eq_some_iff (h : ∀ c ∈ cs, isSign c = false) :
    magnitude? ('+' :: cs) = some n
      ↔ isPlusHex ('+' :: cs) = false
        ∧ ∃ m : Nat, unsigned? cs = some m ∧ (m : Int) ≤ greatest ∧ m = n := by
  have hread : magnitude? ('+' :: cs) = some n
      ↔ ∃ m : Nat, natural? 10 cs = some m ∧ (m : Int) ≤ greatest ∧ m = n := by
    show ((natural? 10 cs).bind fun n => inRange? n) = some n ↔ _
    simp only [Option.bind_eq_some_iff, inRange?_eq_some_iff, inRange_natCast_iff]
  rw [hread]
  constructor
  · rintro ⟨m, hm, hle⟩
    obtain ⟨-, hdigits⟩ := isSome_digitIn?_of_natural? hm
    refine ⟨?_, m, unsigned?_of_natural? hm, hle⟩
    unfold isPlusHex
    split
    · next heq =>
      obtain ⟨-, rfl⟩ := List.cons.inj heq
      exact absurd (hdigits 'x' (by simp)) (by decide)
    · next heq =>
      obtain ⟨-, rfl⟩ := List.cons.inj heq
      exact absurd (hdigits 'X' (by simp)) (by decide)
    · rfl
  · rintro ⟨hplus, m, hm, hle⟩
    refine ⟨m, ?_, hle⟩
    unfold unsigned? at hm
    split at hm
    · simp [isPlusHex] at hplus
    · simp [isPlusHex] at hplus
    · exact hm

/-- A text with no sign behind its first character is read as the literal that it is, unless that is too
great or has a plus in front of `0x`. The least integer is too great as well. -/
theorem readInteger?_eq_some_iff (htrim : trim cs = cs) (hsigns : SignsFirst cs) :
    readInteger? cs = some n
      ↔ literal? cs = some n ∧ -greatest ≤ n ∧ n ≤ greatest ∧ isPlusHex cs = false := by
  have hbound : 0 ≤ greatest := by decide
  rw [readInteger?_eq, htrim]
  -- A minus is taken off first. A plus is left to the reader of decimal digits, so it hides `0x`.
  rcases hsigns.cases with ⟨rest, rfl, hrest⟩ | ⟨rest, rfl, hrest⟩ | hnone
  · show (magnitude? rest).map opposite = some n
      ↔ (unsigned? rest).map (fun k : Nat => -(k : Int)) = some n ∧ _ ∧ _ ∧ _
    simp only [Option.map_eq_some_iff, magnitude?_eq_some_iff hrest]
    constructor
    · rintro ⟨m, ⟨k, hk, hle, rfl⟩, rfl⟩
      rw [opposite_natCast hle]
      exact ⟨⟨k, hk, rfl⟩, by omega, by omega, rfl⟩
    · rintro ⟨⟨k, hk, rfl⟩, hlow, -⟩
      have hle : (k : Int) ≤ greatest := by omega
      exact ⟨k, ⟨k, hk, hle, rfl⟩, opposite_natCast hle⟩
  · show magnitude? ('+' :: rest) = some n
      ↔ (unsigned? rest).map (fun k : Nat => (k : Int)) = some n ∧ _
    rw [magnitude?_plus_eq_some_iff hrest, Option.map_eq_some_iff]
    constructor
    · rintro ⟨hplus, k, hk, hle, rfl⟩
      exact ⟨⟨k, hk, rfl⟩, by omega, hle, hplus⟩
    · rintro ⟨⟨k, hk, rfl⟩, -, hle, hplus⟩
      exact ⟨hplus, k, hk, hle, rfl⟩
  · have hplus : isPlusHex cs = false := by
      unfold isPlusHex
      split
      · exact absurd (hnone '+' List.mem_cons_self) (by decide)
      · exact absurd (hnone '+' List.mem_cons_self) (by decide)
      · rfl
    rw [literal?_of_not_isSign hnone, Option.map_eq_some_iff]
    split
    · exact absurd (hnone '-' List.mem_cons_self) (by decide)
    · rw [magnitude?_eq_some_iff hnone]
      constructor
      · rintro ⟨k, hk, hle, rfl⟩
        exact ⟨⟨k, hk, rfl⟩, by omega, hle, hplus⟩
      · rintro ⟨⟨k, hk, rfl⟩, -, hle, -⟩
        exact ⟨k, hk, hle, rfl⟩

/-- Nothing that is read from a text with no sign behind its first character has to be negated out of
range. -/
theorem opposite_eq_neg_of_negated? (hsigns : SignsFirst cs) (h : negated? cs = some n) :
    opposite n = -n := by
  rcases hsigns.cases with ⟨rest, rfl, hrest⟩ | ⟨rest, rfl, hrest⟩ | hnone
  · obtain ⟨k, -, hle, rfl⟩ := (magnitude?_eq_some_iff hrest).1 h
    exact opposite_natCast hle
  · cases h
  · unfold negated? at h
    split at h
    · exact absurd (hnone '-' List.mem_cons_self) (by decide)
    · cases h

/-! ## Values that are taken -/

/-- Whether an integer is within the bounds that a parameter has. -/
def InBounds (p : Parameter) (n : Int) : Prop :=
  (∀ min, p.min = some min → min ≤ n) ∧ ∀ max, p.max = some max → n ≤ max

theorem outOfBounds?_eq_none_iff : p.outOfBounds? n = none ↔ p.InBounds n := by
  have hnone : p.outOfBounds? n = none
      ↔ p.min.filter (n < ·) = none ∧ p.max.filter (· < n) = none := by
    unfold outOfBounds?
    split <;> simp_all
  rw [hnone, InBounds]
  simp only [Option.filter_eq_none_iff, decide_eq_true_eq, Int.not_lt]

theorem acceptInteger_of_ofValue {literal : IntegerLiteral} {n : Int}
    (hliteral : IntegerLiteral.ofValue (String.ofList (trim text.toList)) = literal)
    (hread : readInteger? literal.digits.toList = some n) (hbounds : p.outOfBounds? n = none) :
    p.acceptInteger text = .ok { p with
      value := literal.digits
      long := p.long || literal.long
      unsigned := p.unsigned || literal.unsigned } := by
  unfold acceptInteger
  dsimp only
  rw [hliteral]
  split
  · next hnone =>
    rw [hread] at hnone
    cases hnone
  · next m hm =>
    rw [hread, Option.some.injEq] at hm
    subst hm
    rw [hbounds]

/-- What an integer parameter takes, and what it keeps of it. -/
theorem accept_integer_iff (htype : p.type = .integer) (choices : Option ValueList) (text : String) :
    (∃ q, p.accept choices text = .ok q)
      ↔ ∃ n, readInteger? (IntegerLiteral.digitsOf text) = some n ∧ p.InBounds n := by
  have haccept : p.accept choices text = p.acceptInteger text := by
    unfold accept
    rw [htype]
  rw [haccept]
  constructor
  · rintro ⟨q, hq⟩
    obtain ⟨literal, n, hliteral, hread, hbounds, -⟩ := acceptInteger_eq_ok hq
    rw [hliteral] at hread
    exact ⟨n, hread, outOfBounds?_eq_none_iff.1 hbounds⟩
  · rintro ⟨n, hread, hbounds⟩
    exact ⟨_, acceptInteger_of_ofValue rfl hread (outOfBounds?_eq_none_iff.2 hbounds)⟩

theorem toList_value_of_accept (htype : p.type = .integer) (h : p.accept choices text = .ok q) :
    q.value.toList = IntegerLiteral.digitsOf text := by
  rcases accept_eq_ok h with ⟨hp, -⟩ | ⟨-, hint⟩ | ⟨hp | hp, -⟩
  · simp [htype] at hp
  · obtain ⟨literal, n, hliteral, -, -, hq⟩ := acceptInteger_eq_ok hint
    rw [hq, IntegerLiteral.digitsOf, ← hliteral]
  · simp [htype] at hp
  · simp [htype] at hp

end Parameter

namespace Catalog

variable {c : Catalog} {configuration name : String} {p : Parameter}

/-! ## Parameters of a catalogue -/

/-- Whether an integer parameter treats a value as it should: what is negated has its opposite in the
range, and what is stored is a literal of an integer within the bounds. -/
def TakesLiteral (c : Catalog) (configuration name value : String) (p : Parameter) : Prop :=
  (∀ n, Parameter.negated? (IntegerLiteral.digitsOf value) = some n → Parameter.opposite n = -n)
    ∧ ∀ change d, c.setParameter configuration name value = .ok (change, d) →
      ∃ q n, d.parameter configuration name = .ok q ∧ literal? q.value.toList = some n ∧ p.InBounds n

theorem exists_setParameter_integer_iff (hp : c.parameter configuration name = .ok p)
    (htype : p.type = .integer) (value : String) :
    (∃ result, c.setParameter configuration name value = .ok result)
      ↔ ∃ n, Parameter.readInteger? (IntegerLiteral.digitsOf value) = some n ∧ p.InBounds n := by
  rw [← Parameter.accept_integer_iff htype (p.valueList.bind c.lists.get?)]
  constructor
  · rintro ⟨⟨change, d⟩, h⟩
    obtain ⟨old, new, hold, hnew, -⟩ := exists_parameter_setParameter h
    rw [hp, Except.ok.injEq] at hold
    subst hold
    exact ⟨new, hnew⟩
  · rintro ⟨new, hnew⟩
    exact setParameter_of_ok hp hnew

/-- The digits of a value that is taken are stored as they were written. -/
theorem exists_parameter_of_setParameter_integer (hp : c.parameter configuration name = .ok p)
    (htype : p.type = .integer) {value : String} {change : Change} {d : Catalog}
    (h : c.setParameter configuration name value = .ok (change, d)) :
    ∃ q, d.parameter configuration name = .ok q
      ∧ q.value.toList = IntegerLiteral.digitsOf value := by
  obtain ⟨old, new, hold, hnew, hafter, -⟩ := exists_parameter_setParameter h
  rw [hp, Except.ok.injEq] at hold
  subst hold
  exact ⟨new, hafter, Parameter.toList_value_of_accept htype hnew⟩

/-- An integer parameter treats a value as it should if no sign stands behind the first of its digits;
and otherwise only if it refuses the value, without having had the least integer to negate. Values
without such a sign are taken exactly if they are literals of integers within the bounds, of which no
opposite is out of range, and do not have a plus in front of `0x`. -/
theorem setParameter_integer_iff (hp : c.parameter configuration name = .ok p)
    (htype : p.type = .integer) (value : String) :
    let digits := IntegerLiteral.digitsOf value
    (c.TakesLiteral configuration name value p
        ↔ SignsFirst digits ∨ (∃ e, c.setParameter configuration name value = .error e)
          ∧ Parameter.negated? digits ≠ some least)
      ∧ (SignsFirst digits →
        ((∃ result, c.setParameter configuration name value = .ok result)
          ↔ ∃ n, literal? digits = some n ∧ p.InBounds n ∧ -greatest ≤ n ∧ n ≤ greatest
            ∧ Parameter.isPlusHex digits = false)) := by
  intro digits
  have htrim : trim digits = digits := IntegerLiteral.trim_digitsOf value
  have hread : SignsFirst digits → ∀ n, Parameter.readInteger? digits = some n
      ↔ literal? digits = some n ∧ -greatest ≤ n ∧ n ≤ greatest ∧ Parameter.isPlusHex digits = false :=
    fun hsigns n => Parameter.readInteger?_eq_some_iff htrim hsigns
  refine ⟨⟨fun ⟨hopposite, hstored⟩ => ?_, ?_⟩, fun hsigns => ?_⟩
  · cases hset : c.setParameter configuration name value with
    | error e =>
        refine .inr ⟨⟨e, rfl⟩, fun hleast => ?_⟩
        exact absurd (hopposite least hleast) (by decide)
    | ok result =>
        obtain ⟨change, d⟩ := result
        obtain ⟨q, hq, hvalue⟩ := exists_parameter_of_setParameter_integer hp htype hset
        obtain ⟨q', n, hq', hliteral, -⟩ := hstored change d hset
        rw [hq, Except.ok.injEq] at hq'
        subst hq'
        rw [hvalue] at hliteral
        exact .inl (signsFirst_of_literal? hliteral)
  · rintro (hsigns | ⟨⟨e, hset⟩, hleast⟩)
    · refine ⟨fun n hn => Parameter.opposite_eq_neg_of_negated? hsigns hn, ?_⟩
      intro change d hset
      obtain ⟨q, hq, hvalue⟩ := exists_parameter_of_setParameter_integer hp htype hset
      obtain ⟨n, hn, hbounds⟩ := (exists_setParameter_integer_iff hp htype value).1 ⟨_, hset⟩
      exact ⟨q, n, hq, hvalue ▸ ((hread hsigns n).1 hn).1, hbounds⟩
    · refine ⟨fun n hn => ?_, fun change d hok => ?_⟩
      · have hrange : InRange n := Parameter.inRange_of_negated? hn
        exact (Parameter.opposite_eq_neg_iff hrange).2 fun heq => hleast (heq ▸ hn)
      · rw [hset] at hok
        cases hok
  · rw [exists_setParameter_integer_iff hp htype]
    refine exists_congr fun n => ?_
    rw [hread hsigns n]
    constructor
    · rintro ⟨⟨hliteral, hrange⟩, hbounds⟩
      exact ⟨hliteral, hbounds, hrange⟩
    · rintro ⟨hliteral, hbounds, hrange⟩
      exact ⟨⟨hliteral, hrange⟩, hbounds⟩

/-- An integer within bounds. -/
def limit : Parameter :=
  { flagOn "LIMIT" [] with value := "10", type := .integer, min := some (-100), max := some 100 }

/-- A header with that integer. -/
def limitHeader : Header :=
  ⟨"cfg_limit.h", [limit], by simp, ""⟩

theorem parameter_limitHeader :
    (build "" [] [limitHeader] []).parameter "cfg_limit.h" "LIMIT" = .ok limit := rfl

theorem setParameter_integer_iff_limit :
    let c := build "" [] [limitHeader] []
    let digits := IntegerLiteral.digitsOf " -0x10UL "
    c.parameter "cfg_limit.h" "LIMIT" = .ok limit ∧ limit.type = .integer
      ∧ (c.TakesLiteral "cfg_limit.h" "LIMIT" " -0x10UL " limit
          ↔ SignsFirst digits ∨ (∃ e, c.setParameter "cfg_limit.h" "LIMIT" " -0x10UL " = .error e)
            ∧ Parameter.negated? digits ≠ some least)
      ∧ (SignsFirst digits →
        ((∃ result, c.setParameter "cfg_limit.h" "LIMIT" " -0x10UL " = .ok result)
          ↔ ∃ n, literal? digits = some n ∧ limit.InBounds n ∧ -greatest ≤ n ∧ n ≤ greatest
            ∧ Parameter.isPlusHex digits = false)) :=
  ⟨parameter_limitHeader, rfl, setParameter_integer_iff parameter_limitHeader rfl " -0x10UL "⟩

/-- Five behind two signs is taken and stored with both; and behind two signs the least integer is
negated. -/
theorem not_takesLiteral_limit :
    let c := build "" [] [limitHeader] []
    ¬ c.TakesLiteral "cfg_limit.h" "LIMIT" "--5" limit
      ∧ ¬ c.TakesLiteral "cfg_limit.h" "LIMIT" "--9223372036854775808" limit := by
  intro c
  constructor
  · rintro ⟨-, hstored⟩
    have hread : Parameter.readInteger? (IntegerLiteral.digitsOf "--5") = some 5 := by decide +kernel
    have hbounds : limit.InBounds 5 := by simp [Parameter.InBounds, limit]
    obtain ⟨⟨change, d⟩, hset⟩ :=
      (exists_setParameter_integer_iff parameter_limitHeader rfl "--5").2 ⟨5, hread, hbounds⟩
    obtain ⟨q, hq, hvalue⟩ :=
      exists_parameter_of_setParameter_integer parameter_limitHeader rfl hset
    obtain ⟨q', n, hq', hliteral, -⟩ := hstored change d hset
    rw [hq, Except.ok.injEq] at hq'
    subst hq'
    have hnone : literal? (IntegerLiteral.digitsOf "--5") = none := by decide +kernel
    rw [hvalue, hnone] at hliteral
    cases hliteral
  · rintro ⟨hopposite, -⟩
    have hleast : Parameter.negated? (IntegerLiteral.digitsOf "--9223372036854775808")
        = some least := by
      decide +kernel
    exact absurd (hopposite least hleast) (by decide)

end Catalog

end Configurator
