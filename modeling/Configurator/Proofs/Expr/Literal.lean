import Configurator.Proofs.Correspondence
import Configurator.Proofs.Expr.Recognition
import Configurator.Proofs.Text.Integer

/-!
# Values have literals

What `Value.chars` writes is read as tokens that derive an expression for the value
(`exists_isRead`), and an assignment of such a text to a name is read as that one
assignment (`evalAssignments_literal`). The sign of an integer is applied to a magnitude that has to be
in range by itself, so the least integer alone has no literal.
-/

namespace Configurator

/-- Whether the text of a value is a literal: all its integers are in range, and greater than the
least. -/
inductive Value.HasLiteral : Value → Prop
  | bool (b : Bool) : HasLiteral (.bool b)
  | int {n : Int} : Text.Integer.least < n → n ≤ Text.Integer.greatest → HasLiteral (.int n)
  | str (s : String) : HasLiteral (.str s)
  | tuple {items : List Value} : (∀ v ∈ items, HasLiteral v) → HasLiteral (.tuple items)

namespace Expr

open Text (isBlank isLetter isLetterOrNumber)

variable {size : Nat} {rest : List Char}

/-! ## Single tokens -/

theorem lexFrom_blank {c : Char} (hblank : isBlank c = true) (size : Nat) (cs : List Char) :
    lexFrom size (c :: cs) = lexFrom size cs := by
  rw [lexFrom, if_pos hblank]

/-- A token that is read in front of a text, wherever the text stands. -/
theorem lexFrom_token {c : Char} {cs after : List Char} {t : Token} (hblank : isBlank c = false)
    (hhash : c ≠ '#') (ht : ∀ offset, leadingToken offset c cs = .ok (t, after)) (size : Nat) :
    lexFrom size (c :: cs) = (lexFrom size after).map fun ts => t :: ts := by
  rw [lexFrom, if_neg (by simp [hblank]), if_neg hhash]
  split
  · next e he => simp [ht] at he
  · next t' after' he =>
    rw [ht] at he
    cases he
    rfl

/-- Whether a word in front of a text ends there. -/
def EndsWord (rest : List Char) : Prop :=
  ∀ c ∈ rest.head?, isIdentRest c = false

theorem endsWord_nil : EndsWord [] := by
  simp [EndsWord]

theorem endsWord_cons {c : Char} (hc : isIdentRest c = false) (cs : List Char) :
    EndsWord (c :: cs) := by
  simpa [EndsWord] using hc

theorem isDigit_iff {c : Char} : c.isDigit = true ↔ 48 ≤ c.toNat ∧ c.toNat ≤ 57 := by
  simp only [Char.isDigit, Bool.and_eq_true, decide_eq_true_eq, ge_iff_le, UInt32.le_iff_toNat_le]
  exact Iff.rfl

theorem isAlpha_iff {c : Char} :
    c.isAlpha = true ↔ (65 ≤ c.toNat ∧ c.toNat ≤ 90) ∨ (97 ≤ c.toNat ∧ c.toNat ≤ 122) := by
  simp only [Char.isAlpha, Char.isUpper, Char.isLower, Bool.or_eq_true, Bool.and_eq_true,
    decide_eq_true_eq, ge_iff_le, UInt32.le_iff_toNat_le]
  exact Iff.rfl

theorem isAscii_of_isAlphanum {c : Char} (h : c.isAlphanum = true) : Text.isAscii c = true := by
  rw [Char.isAlphanum, Bool.or_eq_true, isAlpha_iff, isDigit_iff] at h
  simp only [Text.isAscii, decide_eq_true_eq]
  omega

theorem not_isBlank_of_isDigit {c : Char} (h : c.isDigit = true) : isBlank c = false := by
  rw [isDigit_iff] at h
  simp only [isBlank, Bool.or_eq_false_iff, Bool.and_eq_false_iff, decide_eq_false_iff_not,
    beq_eq_false_iff_ne]
  omega

theorem isIdentRest_of_isAlphanum {c : Char} (h : c.isAlphanum = true) : isIdentRest c = true := by
  have hascii := isAscii_of_isAlphanum h
  simp only [Char.isAlphanum, Bool.or_eq_true] at h
  simp [isIdentRest, isLetterOrNumber, isLetter, Text.isNumber, hascii, h]

theorem takeWhile_word {p : Char → Bool} (hp : ∀ c, p c = true → isIdentRest c = true)
    {word : List Char} (hword : ∀ c ∈ word, p c = true) (hrest : EndsWord rest) :
    (word ++ rest).takeWhile p = word := by
  rw [List.takeWhile_append_of_pos hword]
  cases rest with
  | nil => simp
  | cons c cs =>
      have hc : ¬ p c = true := fun h => by simpa [hp c h] using hrest c rfl
      rw [List.takeWhile_cons_of_neg hc, List.append_nil]

theorem dropWhile_word {p : Char → Bool} (hp : ∀ c, p c = true → isIdentRest c = true)
    {word : List Char} (hword : ∀ c ∈ word, p c = true) (hrest : EndsWord rest) :
    (word ++ rest).dropWhile p = rest := by
  rw [List.dropWhile_append_of_pos hword]
  cases rest with
  | nil => rfl
  | cons c cs =>
      have hc : ¬ p c = true := fun h => by simpa [hp c h] using hrest c rfl
      exact List.dropWhile_cons_of_neg hc

/-! ## Names -/

/-- Whether a text is a single identifier. -/
def IsName (name : String) : Prop :=
  ∃ c cs, name.toList = c :: cs ∧ isBlank c = false ∧ isIdentStart c = true
    ∧ ∀ d ∈ cs, isIdentRest d = true

theorem not_isDigit_of_isIdentStart {c : Char} (h : isIdentStart c = true) : c.isDigit = false := by
  by_contra hdigit
  have hdigit : c.isDigit = true := by simpa using hdigit
  have hascii := isAscii_of_isAlphanum (c := c) (by simp [Char.isAlphanum, hdigit])
  have halpha : c.isAlpha = false := by
    rw [Bool.eq_false_iff, Ne, isAlpha_iff]
    rw [isDigit_iff] at hdigit
    omega
  simp only [isIdentStart, isLetter, hascii, if_true, halpha, Bool.false_or, beq_iff_eq] at h
  subst h
  simp at hdigit

theorem leadingToken_ident {c : Char} (h : isIdentStart c = true) (offset : Nat) (cs : List Char) :
    leadingToken offset c cs
      = .ok (.ident (String.ofList (c :: cs.takeWhile isIdentRest)), cs.dropWhile isIdentRest) := by
  -- no character that stands for itself, opens a string or is a sign starts an identifier
  have hne : ∀ d, isIdentStart d = false → c ≠ d := fun d hd hcd => by simp [hcd, hd] at h
  have hquote : ¬ (c = '"' ∨ c = '\'') := by
    rintro (hc | hc)
    · exact hne _ rfl hc
    · exact hne _ rfl hc
  have hinteger : ¬ (c.isDigit = true ∨ isSign c = true) := by
    simp only [not_isDigit_of_isIdentStart h, isSign, Bool.or_eq_true, beq_iff_eq]
    rintro (hc | hc | hc)
    · cases hc
    · exact hne _ rfl hc
    · exact hne _ rfl hc
  unfold leadingToken
  split
  case h_9 => rw [if_neg hquote, if_neg hinteger, if_pos h]
  all_goals exact absurd rfl (hne _ rfl)

theorem lexFrom_name {name : String} (hname : IsName name) (hrest : EndsWord rest) (size : Nat) :
    lexFrom size (name.toList ++ rest) = (lexFrom size rest).map fun ts => .ident name :: ts := by
  obtain ⟨c, cs, heq, hblank, hstart, hcs⟩ := hname
  have hhash : c ≠ '#' := by
    rintro rfl
    cases hstart
  rw [heq, List.cons_append]
  refine lexFrom_token hblank hhash (fun offset => ?_) size
  rw [leadingToken_ident hstart, takeWhile_word (fun _ h => h) hcs hrest,
    dropWhile_word (fun _ h => h) hcs hrest, ← heq, String.ofList_toList]

/-! ## Strings -/

theorem lexString_escape (c : Char) (cs : List Char) :
    lexString '"' (Value.escape c ++ cs)
      = (lexString '"' cs).map fun (s, rest) => (c :: s, rest) := by
  unfold Value.escape
  split
  case h_1 | h_2 | h_3 | h_4 => simp [lexString, unescape]
  case h_5 hquote hbackslash _ _ =>
    rw [List.singleton_append, lexString, if_neg fun h => hquote h]
    · exact fun h _ => hbackslash h
    · exact fun _ _ h _ => hbackslash h

theorem lexString_quoted (s rest : List Char) :
    lexString '"' (s.flatMap Value.escape ++ '"' :: rest) = some (s, rest) := by
  induction s with
  | nil => simp [lexString]
  | cons c s ih => rw [List.flatMap_cons, List.append_assoc, lexString_escape, ih, Option.map_some]

theorem lexFrom_quoted (s : String) (size : Nat) (rest : List Char) :
    lexFrom size (Value.quoted s ++ rest) = (lexFrom size rest).map fun ts => .str s :: ts := by
  simp only [Value.quoted, List.cons_append, List.append_assoc]
  refine lexFrom_token rfl (by decide) (fun offset => ?_) size
  simp [leadingToken, lexString_quoted, String.ofList_toList]

/-! ## Integers -/

theorem readMagnitude?_digits {n : Nat} (h : Text.Integer.InRange n) :
    readMagnitude? (Text.Integer.digits n) = some (n : Int) := by
  obtain ⟨c, cs, hcs, -, hdigits⟩ := Text.Integer.exists_digits_eq_cons n
  have hletter : ∀ d ds, cs = d :: ds → d ≠ 'x' ∧ d ≠ 'X' := by
    rintro d ds rfl
    have hd := hdigits d List.mem_cons_self
    constructor <;> rintro rfl <;> simp at hd
  rw [← Text.Integer.read?_digits h, hcs]
  unfold readMagnitude?
  split
  · next ds heq =>
    cases heq
    exact absurd rfl (hletter _ _ rfl).1
  · next ds heq =>
    cases heq
    exact absurd rfl (hletter _ _ rfl).2
  · rfl

theorem readInteger?_write {n : Int} (hlow : Text.Integer.least < n)
    (hhigh : n ≤ Text.Integer.greatest) : readInteger? (Text.Integer.write n) = some n := by
  simp only [Text.Integer.least, Text.Integer.greatest] at hlow hhigh
  cases n with
  | ofNat n =>
      obtain ⟨c, cs, hcs, hc, -⟩ := Text.Integer.exists_digits_eq_cons n
      have hsign := Text.Integer.not_sign_of_isDigit hc
      have hmagnitude : readMagnitude? (Text.Integer.digits n) = some (n : Int) :=
        readMagnitude?_digits ⟨by simp only [Text.Integer.least]; omega, hhigh⟩
      show readInteger? (Text.Integer.digits n) = some (n : Int)
      rw [hcs] at hmagnitude ⊢
      unfold readInteger?
      split
      · next heq =>
        cases heq
        exact absurd rfl hsign.1
      · next heq =>
        cases heq
        exact absurd rfl hsign.2
      · exact hmagnitude
  | negSucc n =>
      show (readMagnitude? (Text.Integer.digits (n + 1))).map (fun m => -m) = some (.negSucc n)
      rw [readMagnitude?_digits ⟨by simp only [Text.Integer.least]; omega,
        by simp only [Text.Integer.greatest]; omega⟩]
      rfl

theorem leadingToken_integer {c : Char} (h : c.isDigit = true ∨ isSign c = true) {cs : List Char}
    {n : Int} (hn : readInteger? (c :: cs.takeWhile Char.isAlphanum) = some n) (offset : Nat) :
    leadingToken offset c cs = .ok (.int n, cs.dropWhile Char.isAlphanum) := by
  have hne : ∀ d : Char, d.isDigit = false → isSign d = false → c ≠ d := by
    rintro d hd hd' rfl
    simp [hd, hd'] at h
  have hquote : ¬ (c = '"' ∨ c = '\'') := by
    rintro (hc | hc)
    · exact hne _ rfl rfl hc
    · exact hne _ rfl rfl hc
  unfold leadingToken
  split
  case h_9 => simp only [if_neg hquote, if_pos h, hn]
  all_goals exact absurd rfl (hne _ rfl rfl)

theorem lexFrom_write {n : Int} (hlow : Text.Integer.least < n) (hhigh : n ≤ Text.Integer.greatest)
    (hrest : EndsWord rest) (size : Nat) :
    lexFrom size (Text.Integer.write n ++ rest)
      = (lexFrom size rest).map fun ts => .int n :: ts := by
  obtain ⟨c, cs, hcs, hc, halnum⟩ : ∃ c cs, Text.Integer.write n = c :: cs
      ∧ (c.isDigit = true ∨ isSign c = true) ∧ ∀ d ∈ cs, d.isAlphanum = true := by
    cases n with
    | ofNat n =>
        obtain ⟨c, cs, hcs, hc, hdigits⟩ := Text.Integer.exists_digits_eq_cons n
        exact ⟨c, cs, hcs, .inl hc, fun d hd => by simp [Char.isAlphanum, hdigits d hd]⟩
    | negSucc n =>
        refine ⟨'-', _, rfl, .inr rfl, fun d hd => ?_⟩
        simp [Char.isAlphanum, Text.Integer.isDigit_of_mem_digits hd]
  have hblank : isBlank c = false ∧ c ≠ '#' := by
    rcases hc with hc | hc
    · refine ⟨not_isBlank_of_isDigit hc, ?_⟩
      rintro rfl
      simp at hc
    · simp only [isSign, Bool.or_eq_true, beq_iff_eq] at hc
      rcases hc with rfl | rfl <;> exact ⟨rfl, by decide⟩
  have hread := readInteger?_write hlow hhigh
  rw [hcs] at hread ⊢
  rw [List.cons_append]
  refine lexFrom_token hblank.1 hblank.2 (fun offset => ?_) size
  rw [leadingToken_integer hc (by rwa [takeWhile_word (fun _ => isIdentRest_of_isAlphanum) halnum hrest]),
    dropWhile_word (fun _ => isIdentRest_of_isAlphanum) halnum hrest]

/-! ## Values -/

/-- Whether the text of a value is read as a piece, wherever the word that it ends in is at its end. -/
structure IsRead (v : Value) (p : Piece) : Prop where
  lexes : ∀ size rest, EndsWord rest →
    lexFrom size (v.chars ++ rest) = (lexFrom size rest).map fun ts => p.tokens ++ ts
  derives : Derives .atom p.tokens p.tree
  evaluates : ∀ env, p.tree.eval env = .ok v

theorem isRead_bool (b : Bool) :
    IsRead (.bool b) ⟨[.ident (if b then "True" else "False")], .bool b⟩ := by
  have hword : ∀ word : String, IsName word → ∀ size rest, EndsWord rest →
      lexFrom size (word.toList ++ rest) = (lexFrom size rest).map fun ts => [.ident word] ++ ts :=
    fun word hname size rest hrest => lexFrom_name hname hrest size
  cases b with
  | true =>
      have hrest : ∀ d ∈ ['r', 'u', 'e'], d.isAlphanum = true := by simp
      have hname : IsName "True" := ⟨'T', ['r', 'u', 'e'], by simp, rfl, rfl,
        fun d hd => isIdentRest_of_isAlphanum (hrest d hd)⟩
      exact ⟨hword "True" hname, .trueWord (by simp), fun env => rfl⟩
  | false =>
      have hrest : ∀ d ∈ ['a', 'l', 's', 'e'], d.isAlphanum = true := by simp
      have hname : IsName "False" := ⟨'F', ['a', 'l', 's', 'e'], by simp, rfl, rfl,
        fun d hd => isIdentRest_of_isAlphanum (hrest d hd)⟩
      exact ⟨hword "False" hname, .falseWord (by simp), fun env => rfl⟩

/-- The expression in a comparison with nothing around it. -/
theorem Derives.atom_disjunction {ts : List Token} {e : Expr} (h : Derives .atom ts e) :
    Derives .disjunction ts e := by
  have hnegation : ∀ p ∈ [Piece.mk ts e], Derives .negation p.tokens p.tree := by
    simpa using Derives.negation (.comparison h)
  have hconjunction : ∀ p ∈ [Piece.mk ts e], Derives .conjunction p.tokens p.tree := by
    simpa using show Derives .conjunction ts e from .conjunction hnegation
  exact .disjunction hconjunction

theorem separated_false_cons (separator : Token) (ts : List Token) (more : List (List Token)) :
    separated separator false (ts :: more) = ts ++ more.flatMap fun us => separator :: us := by
  induction more generalizing ts with
  | nil => exact (List.append_nil ts).symm
  | cons us more ih => rw [separated_cons _ (by simp), ih, List.flatMap_cons, List.cons_append]

theorem endsWord_charsAfter (items : List Value) (hrest : EndsWord rest) :
    EndsWord (Value.charsAfter items ++ rest) := by
  cases items with
  | nil => simpa [Value.charsAfter] using hrest
  | cons v items => exact endsWord_cons rfl _

theorem lexFrom_charsAfter {items : List Value} {pieces : List Piece}
    (h : List.Forall₂ IsRead items pieces) (hrest : EndsWord rest) (size : Nat) :
    lexFrom size (Value.charsAfter items ++ rest) = (lexFrom size rest).map fun ts =>
      ((pieces.map (·.tokens)).flatMap fun us => .comma :: us) ++ ts := by
  induction h with
  | nil =>
      simp only [Value.charsAfter, List.nil_append, List.map_nil, List.flatMap_nil]
      cases lexFrom size rest <;> rfl
  | @cons v p items pieces hv hitems ih =>
      have hcomma : lexFrom size (Value.charsAfter (v :: items) ++ rest)
          = (lexFrom size (v.chars ++ (Value.charsAfter items ++ rest))).map (.comma :: ·) := by
        simp only [Value.charsAfter, List.cons_append, List.append_assoc]
        rw [lexFrom_token rfl (by decide) (fun offset => rfl), lexFrom_blank rfl]
      rw [hcomma, hv.lexes size _ (endsWord_charsAfter items hrest), ih]
      cases lexFrom size rest with
      | error e => rfl
      | ok ts => simp [Except.map]

theorem evalAll_of_isRead {items : List Value} {pieces : List Piece}
    (h : List.Forall₂ IsRead items pieces) (env : Environment) :
    evalAll env (pieces.map (·.tree)) = .ok items := by
  induction h with
  | nil => rfl
  | cons hv _ ih => simp only [List.map_cons, evalAll, hv.evaluates env, ih]

theorem lexFrom_rightParen (size : Nat) (rest : List Char) :
    lexFrom size (')' :: rest) = (lexFrom size rest).map (.rightParen :: ·) :=
  lexFrom_token rfl (by decide) (fun _ => rfl) size

theorem lexFrom_tuple {items : List Value} {pieces : List Piece}
    (h : List.Forall₂ IsRead items pieces) (size : Nat) (rest : List Char) :
    lexFrom size ((Value.tuple items).chars ++ rest) = (lexFrom size rest).map fun ts =>
      (.leftParen :: separated .comma (pieces.length == 1) (pieces.map (·.tokens)) ++ [.rightParen])
        ++ ts := by
  have hopen : ∀ cs, lexFrom size ('(' :: cs) = (lexFrom size cs).map (.leftParen :: ·) :=
    fun cs => lexFrom_token rfl (by decide) (fun _ => rfl) size
  cases h with
  | nil =>
      show lexFrom size ('(' :: ')' :: rest) = _
      rw [hopen, lexFrom_rightParen]
      cases lexFrom size rest <;> rfl
  | @cons v p items pieces hv hitems =>
      cases hitems with
      | nil =>
          show lexFrom size ('(' :: v.chars ++ [',', ')'] ++ rest) = _
          have hcomma : lexFrom size (',' :: ')' :: rest)
              = (lexFrom size (')' :: rest)).map (.comma :: ·) :=
            lexFrom_token rfl (by decide) (fun _ => rfl) size
          simp only [List.cons_append, List.append_assoc, List.nil_append]
          rw [hopen, hv.lexes size _ (endsWord_cons rfl _), hcomma, lexFrom_rightParen]
          cases lexFrom size rest with
          | error e => rfl
          | ok ts => simp [Except.map, separated]
      | @cons w q items pieces hw hitems =>
          have hafter := lexFrom_charsAfter (.cons hw hitems) (endsWord_cons (c := ')') rfl rest) size
          simp only [Value.chars, List.cons_append, List.append_assoc, List.nil_append]
          rw [hopen, hv.lexes size _ (endsWord_charsAfter _ (endsWord_cons rfl rest)), hafter,
            lexFrom_rightParen]
          cases lexFrom size rest with
          | error e => rfl
          | ok ts => simp [Except.map, separated_false_cons]

theorem isRead_tuple {items : List Value} {pieces : List Piece}
    (h : List.Forall₂ IsRead items pieces) :
    IsRead (.tuple items)
      ⟨.leftParen :: separated .comma (pieces.length == 1) (pieces.map (·.tokens)) ++ [.rightParen],
        .tuple (pieces.map (·.tree))⟩ where
  lexes := fun size rest _ => lexFrom_tuple h size rest
  derives := by
    have hall : ∀ p ∈ pieces, Derives .disjunction p.tokens p.tree := by
      intro p hp
      obtain ⟨i, hi, rfl⟩ := List.getElem_of_mem hp
      exact (h.get (h.length_eq ▸ hi) hi).derives.atom_disjunction
    refine .parentheses hall ?_
    by_cases hone : pieces.length = 1
    · exact .inr (by simp [hone])
    · exact .inl hone
  evaluates := fun env => by simp only [eval, evalAll_of_isRead h env]

theorem exists_isRead {v : Value} (h : v.HasLiteral) :
    ∃ p, IsRead v p := by
  induction h with
  | bool b => exact ⟨_, isRead_bool b⟩
  | @int n hlow hhigh =>
      exact ⟨⟨[.int n], .int n⟩, fun size rest hrest => lexFrom_write hlow hhigh hrest size, .int n,
        fun env => rfl⟩
  | str s =>
      exact ⟨⟨[.str s], .str s⟩, fun size rest _ => lexFrom_quoted s size rest, .str s, fun env => rfl⟩
  | tuple _ ih =>
      obtain ⟨pieces, hpieces⟩ := exists_forall₂ ih
      exact ⟨_, isRead_tuple hpieces⟩

/-! ## Assignments of literals -/

theorem lex_assignment {name : String} (hname : IsName name) {v : Value} {p : Piece}
    (hv : IsRead v p) :
    lex (name.toList ++ ' ' :: '=' :: ' ' :: v.chars) = .ok (.ident name :: .assign :: p.tokens) := by
  have hvalue := hv.lexes (Text.byteSize (name.toList ++ ' ' :: '=' :: ' ' :: v.chars)) []
    endsWord_nil
  rw [List.append_nil] at hvalue
  rw [lex, lexFrom_name hname (endsWord_cons rfl _), lexFrom_blank rfl,
    lexFrom_token rfl (by decide) (fun offset => rfl), lexFrom_blank rfl, hvalue, lexFrom]
  simp [Except.map]

/-- An assignment of the text of a value to a name is read as that. -/
theorem evalAssignments_literal {name : String} (hname : IsName name) (hkeyword : name ∉ keywords)
    {v : Value} (hv : v.HasLiteral) :
    evalAssignments (name.toList ++ ' ' :: '=' :: ' ' :: v.chars) = .ok [(name, v)] := by
  obtain ⟨p, hp⟩ := exists_isRead hv
  have hderived : (Binding.mk name p).IsDerived := ⟨hkeyword, .single hp.derives.atom_disjunction⟩
  have hparse : parseAssignments (name.toList ++ ' ' :: '=' :: ' ' :: v.chars)
      = .ok [(name, p.tree)] := by
    rw [parseAssignments_of_lex (lex_assignment hname hp), ← Outcome.toOption_eq_some_iff]
    exact toOption_of_derivesAssignments (.single hderived)
  simp only [evalAssignments, hparse, bind, Except.bind, List.mapM_cons, List.mapM_nil,
    hp.evaluates, pure, Except.pure]

end Expr

end Configurator
