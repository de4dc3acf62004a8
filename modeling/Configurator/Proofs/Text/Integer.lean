import Mathlib.Tactic.IntervalCases
import Configurator.Text.Integer

/-!
# Written integers are read back

`digits` is undone by `natural?` (`natural?_digits`) and `write` by `read?` (`read?_write`). What
else readers rely on is said of single characters: a written number begins with a digit and consists
of digits.
-/

namespace Configurator.Text.Integer

/-! ## Digits -/

theorem continueDigits?_append (base n : Nat) (cs ds : List Char) :
    continueDigits? base n (cs ++ ds)
      = (continueDigits? base n cs).bind fun m => continueDigits? base m ds := by
  induction cs generalizing n with
  | nil => rfl
  | cons c cs ih =>
      simp only [List.cons_append, continueDigits?]
      cases digitIn? base c with
      | none => rfl
      | some d => exact ih (base * n + d)

theorem digitIn?_digitChar {n : Nat} (h : n < 10) : digitIn? 10 (Nat.digitChar n) = some n := by
  interval_cases n <;> rfl

theorem isDigit_digitChar {n : Nat} (h : n < 10) : (Nat.digitChar n).isDigit = true := by
  interval_cases n <;> rfl

theorem digits_ne_nil (n : Nat) : digits n ≠ [] := by
  unfold digits
  split <;> simp

theorem continueDigits?_digits (n : Nat) : continueDigits? 10 0 (digits n) = some n := by
  induction n using Nat.strongRecOn with
  | ind n ih =>
    unfold digits
    split
    · next h => simp [continueDigits?, digitIn?_digitChar h]
    · next h =>
      rw [continueDigits?_append, ih (n / 10) (by omega)]
      simp only [Option.bind_some, continueDigits?, digitIn?_digitChar (Nat.mod_lt n (by omega))]
      rw [Nat.div_add_mod]

theorem natural?_digits (n : Nat) : natural? 10 (digits n) = some n := by
  rw [natural?, if_neg (digits_ne_nil n), continueDigits?_digits]

theorem isDigit_of_mem_digits {n : Nat} {c : Char} (h : c ∈ digits n) : c.isDigit = true := by
  induction n using Nat.strongRecOn with
  | ind n ih =>
    unfold digits at h
    split at h
    · next hn =>
      rw [List.mem_singleton.1 h]
      exact isDigit_digitChar hn
    · next hn =>
      rcases List.mem_append.1 h with h | h
      · exact ih (n / 10) (by omega) h
      · rw [List.mem_singleton.1 h]
        exact isDigit_digitChar (Nat.mod_lt n (by omega))

theorem exists_digits_eq_cons (n : Nat) :
    ∃ c cs, digits n = c :: cs ∧ c.isDigit = true ∧ ∀ d ∈ cs, d.isDigit = true := by
  obtain ⟨c, cs, h⟩ := List.exists_cons_of_ne_nil (digits_ne_nil n)
  exact ⟨c, cs, h, isDigit_of_mem_digits (h ▸ List.mem_cons_self),
    fun d hd => isDigit_of_mem_digits (h ▸ List.mem_cons_of_mem _ hd)⟩

/-! ## Integers -/

theorem inRange?_eq_some {n : Int} (h : InRange n) : inRange? n = some n :=
  if_pos h

theorem not_sign_of_isDigit {c : Char} (h : c.isDigit = true) : c ≠ '-' ∧ c ≠ '+' := by
  constructor <;> rintro rfl <;> simp at h

/-- A text that does not begin with a sign is read as a natural number. -/
theorem read?_of_ne_sign {base : Nat} {c : Char} (h : c ≠ '-' ∧ c ≠ '+') (cs : List Char) :
    read? base (c :: cs) = (natural? base (c :: cs)).bind fun n => inRange? n := by
  unfold read?
  split
  · next heq =>
    cases heq
    exact absurd rfl h.1
  · next heq =>
    cases heq
    exact absurd rfl h.2
  · rfl

theorem read?_digits {n : Nat} (h : InRange n) : read? 10 (digits n) = some (n : Int) := by
  obtain ⟨c, cs, hcs, hc, -⟩ := exists_digits_eq_cons n
  rw [hcs, read?_of_ne_sign (not_sign_of_isDigit hc), ← hcs, natural?_digits, Option.bind_some,
    inRange?_eq_some h]

theorem read?_write {n : Int} (h : InRange n) : read? 10 (write n) = some n := by
  cases n with
  | ofNat n => exact read?_digits h
  | negSucc n =>
      show (natural? 10 (digits (n + 1))).bind (fun m => inRange? (-m)) = some (.negSucc n)
      rw [natural?_digits, Option.bind_some]
      exact inRange?_eq_some h

/-- Digits that are read are digits. -/
theorem isSome_digitIn?_of_natural? {base : Nat} {cs : List Char} {n : Nat}
    (h : natural? base cs = some n) : cs ≠ [] ∧ ∀ c ∈ cs, (digitIn? base c).isSome = true := by
  unfold natural? at h
  split at h
  · cases h
  · next hne =>
    refine ⟨hne, ?_⟩
    clear hne
    have key : ∀ m, continueDigits? base m cs = some n →
        ∀ c ∈ cs, (digitIn? base c).isSome = true := by
      clear h
      induction cs with
      | nil => simp
      | cons c cs ih =>
          intro m h
          obtain ⟨d, hd, h⟩ := Option.bind_eq_some_iff.1 h
          rw [List.forall_mem_cons]
          exact ⟨by simp [hd], ih _ h⟩
    exact key 0 h

/-- What is read as an integer ends in a digit. -/
theorem exists_last_of_read? {base : Nat} {cs : List Char} {n : Int} (h : read? base cs = some n) :
    ∃ before c, cs = before ++ [c] ∧ (digitIn? base c).isSome = true := by
  have key : ∀ {ds : List Char} {f : Nat → Option Int}, (natural? base ds).bind f = some n →
      ∃ before c, ds = before ++ [c] ∧ (digitIn? base c).isSome = true := by
    intro ds f h
    obtain ⟨m, hm, -⟩ := Option.bind_eq_some_iff.1 h
    obtain ⟨hne, hall⟩ := isSome_digitIn?_of_natural? hm
    exact ⟨ds.dropLast, ds.getLast hne, (List.dropLast_concat_getLast hne).symm,
      hall _ (List.getLast_mem hne)⟩
  unfold read? at h
  split at h
  · obtain ⟨before, c, rfl, hc⟩ := key h
    exact ⟨'-' :: before, c, rfl, hc⟩
  · obtain ⟨before, c, rfl, hc⟩ := key h
    exact ⟨'+' :: before, c, rfl, hc⟩
  · exact key h

/-- What is read without a sign is not negative. -/
theorem nonneg_of_read? {base : Nat} {cs : List Char} (hcs : cs.head? ≠ some '-') {n : Int}
    (h : read? base cs = some n) : 0 ≤ n := by
  have key : ∀ ds : List Char,
      (natural? base ds).bind (fun m => inRange? (m : Int)) = some n → 0 ≤ n := by
    intro ds h
    obtain ⟨m, -, hm⟩ := Option.bind_eq_some_iff.1 h
    unfold inRange? at hm
    split at hm
    · cases hm
      exact Int.natCast_nonneg m
    · cases hm
  unfold read? at h
  split at h
  · exact absurd rfl hcs
  · exact key _ h
  · exact key _ h

end Configurator.Text.Integer
