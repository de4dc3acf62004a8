/-!
# Written integers

Reading and writing of 64-bit signed integers. A reader takes at most one sign and then only digits
of its base, and refuses what does not fit in the range; the writer gives the shortest decimal form.
-/

namespace Configurator.Text.Integer

/-- The least integer of the range. -/
def least : Int := -0x8000000000000000

/-- The greatest integer of the range. -/
def greatest : Int := 0x7fffffffffffffff

def InRange (n : Int) : Prop :=
  least ≤ n ∧ n ≤ greatest

instance (n : Int) : Decidable (InRange n) :=
  inferInstanceAs (Decidable (_ ∧ _))

/-! ## Reading -/

/-- The value of an ASCII digit, letters of either case counting from ten. -/
def digitValue (c : Char) : Option Nat :=
  if '0' ≤ c ∧ c ≤ '9' then some (c.toNat - '0'.toNat)
  else if 'a' ≤ c ∧ c ≤ 'z' then some (c.toNat - 'a'.toNat + 10)
  else if 'A' ≤ c ∧ c ≤ 'Z' then some (c.toNat - 'A'.toNat + 10)
  else none

/-- A digit that is less than the base. -/
def digitIn? (base : Nat) (c : Char) : Option Nat :=
  (digitValue c).filter (· < base)

/-- The number that digits write after a number `n` already read. -/
def continueDigits? (base : Nat) : Nat → List Char → Option Nat
  | n, [] => some n
  | n, c :: cs => (digitIn? base c).bind fun d => continueDigits? base (base * n + d) cs

/-- A natural number: one or more digits and nothing else. -/
def natural? (base : Nat) (cs : List Char) : Option Nat :=
  if cs = [] then none else continueDigits? base 0 cs

/-- Keeps an integer only if it is in range. -/
def inRange? (n : Int) : Option Int :=
  if InRange n then some n else none

/-- An integer: at most one sign, then digits of the base, with a value in range. -/
def read? (base : Nat) (cs : List Char) : Option Int :=
  match cs with
  | '-' :: digits => (natural? base digits).bind fun n => inRange? (-n)
  | '+' :: digits => (natural? base digits).bind fun n => inRange? n
  | digits => (natural? base digits).bind fun n => inRange? n

theorem inRange_of_read? {base : Nat} {cs : List Char} {n : Int} (h : read? base cs = some n) :
    InRange n := by
  have key : ∀ {m k : Int}, inRange? m = some k → InRange k := by
    intro m k hk
    unfold inRange? at hk
    split at hk
    · cases hk; assumption
    · cases hk
  unfold read? at h
  split at h <;> obtain ⟨m, -, hm⟩ := Option.bind_eq_some_iff.1 h <;> exact key hm

/-! ## Writing -/

/-- Decimal digits, the most significant first and none of them idle. -/
def digits (n : Nat) : List Char :=
  if n < 10 then [Nat.digitChar n] else digits (n / 10) ++ [Nat.digitChar (n % 10)]

/-- Decimal form, with a minus sign if negative and no plus sign. -/
def write : Int → List Char
  | .ofNat n => digits n
  | .negSucc n => '-' :: digits (n + 1)

end Configurator.Text.Integer
