import Mathlib.Tactic.IntervalCases
import Configurator.Instant
import Configurator.Proofs.Text.Integer

/-!
# Written instants are read back

The text of a moment names that moment (`Instant.read?_write`), because dates and numbers of days
correspond (`daysOfDate_dateOfDays`), and because each number is written in as many digits as its
reader takes.
-/

namespace Configurator.Instant

/-! ## Calendar -/

/-- A day of an era of 400 years lies in a century, in a cycle of four years and in a year of that. The
last day of a cycle is a leap day, unless the cycle is the last of one of the first three centuries. -/
theorem exists_yearOfEra {day : Nat} (h : day < 146097) :
    ∃ century cycle year rest, century ≤ 3 ∧ cycle ≤ 24 ∧ year ≤ 3
      ∧ day = 36524 * century + 1461 * cycle + 365 * year + rest
      ∧ (rest ≤ 364 ∨ rest = 365 ∧ year = 3 ∧ (cycle ≤ 23 ∨ century = 3)) := by
  obtain ⟨century, ofCentury, hcentury, hday, hof⟩ : ∃ century ofCentury, century ≤ 3
      ∧ day = 36524 * century + ofCentury ∧ (ofCentury < 36524 ∨ ofCentury = 36524 ∧ century = 3) :=
    ⟨min (day / 36524) 3, day - 36524 * min (day / 36524) 3, by omega, by omega, by omega⟩
  obtain ⟨year, hyear⟩ : ∃ year, year = min (ofCentury % 1461 / 365) 3 := ⟨_, rfl⟩
  exact ⟨century, ofCentury / 1461, year, ofCentury % 1461 - 365 * year, hcentury, by omega,
    by omega, by omega, by omega⟩

/-- The year of an era and the day of the year, as they are computed from the day of the era. -/
theorem yearOfEra_eq {day century cycle year rest : Nat} (hcentury : century ≤ 3)
    (hcycle : cycle ≤ 24) (hyear : year ≤ 3)
    (hday : day = 36524 * century + 1461 * cycle + 365 * year + rest)
    (hrest : rest ≤ 364 ∨ rest = 365 ∧ year = 3 ∧ (cycle ≤ 23 ∨ century = 3)) :
    (day - day / 1460 + day / 36524 - day / 146096) / 365 = 100 * century + 4 * cycle + year := by
  -- by how much the year of the era is too early, counted in leap days
  obtain ⟨leap, hleap, hleaps⟩ : ∃ leap, day / 1460 = 25 * century + cycle + leap
      ∧ (leap = 0 ∧ 24 * century + cycle + 365 * year + rest < 1460
        ∨ leap = 1 ∧ 1460 ≤ 24 * century + cycle + 365 * year + rest) := by
    refine ⟨(24 * century + cycle + 365 * year + rest) / 1460, by omega, by omega⟩
  obtain ⟨last, hcenturies, hera⟩ : ∃ last, day / 36524 = century + last ∧ day / 146096 = last := by
    by_cases hlast : 1461 * cycle + 365 * year + rest < 36524
    · exact ⟨0, by omega, by omega⟩
    · exact ⟨1, by omega, by omega⟩
  have hshort : day - day / 1460 + day / 36524 - day / 146096
      = 365 * (100 * century + 4 * cycle + year) + (rest - leap) := by
    rw [hleap, hcenturies, hera]
    omega
  rw [hshort]
  omega

/-- A date by the year and the month that are counted from March, and the day of that year. -/
def dateOfYear (year : Int) (dayOfYear : Nat) : Int × Nat × Nat :=
  let m := (5 * dayOfYear + 2) / 153
  let month := if m < 10 then m + 3 else m - 9
  (if month ≤ 2 then year + 1 else year, month, dayOfYear - daysBeforeMonth m + 1)

theorem daysBeforeYear_era (era : Int) {century cycle year : Nat} (hcentury : century ≤ 3)
    (hcycle : cycle ≤ 24) (hyear : year ≤ 3) :
    daysBeforeYear ((100 * century + 4 * cycle + year : Nat) + era * 400)
      = 146097 * era + 36524 * century + 1461 * cycle + 365 * year := by
  simp only [daysBeforeYear, Int.fdiv_eq_ediv_of_nonneg _ (by omega : (0 : Int) ≤ 4),
    Int.fdiv_eq_ediv_of_nonneg _ (by omega : (0 : Int) ≤ 100),
    Int.fdiv_eq_ediv_of_nonneg _ (by omega : (0 : Int) ≤ 400)]
  omega

/-- How many days of an era come before one of its years. -/
theorem daysBeforeYearOfEra {century cycle year : Nat} (hcentury : century ≤ 3) (hcycle : cycle ≤ 24)
    (hyear : year ≤ 3) :
    365 * (100 * century + 4 * cycle + year) + (100 * century + 4 * cycle + year) / 4
        - (100 * century + 4 * cycle + year) / 100
      = 36524 * century + 1461 * cycle + 365 * year := by
  have hfour : (100 * century + 4 * cycle + year) / 4 = 25 * century + cycle := by omega
  have hhundred : (100 * century + 4 * cycle + year) / 100 = century := by omega
  omega

theorem isLeapYear_iff {year : Int} :
    isLeapYear year = true ↔ year % 4 = 0 ∧ (year % 100 ≠ 0 ∨ year % 400 = 0) := by
  simp [isLeapYear]

theorem isLeapYear_era (era : Int) {century cycle : Nat} (hcentury : century ≤ 3)
    (hcycle : cycle ≤ 24) (hlast : cycle ≤ 23 ∨ century = 3) :
    isLeapYear ((100 * century + 4 * cycle + 3 : Nat) + era * 400 + 1) = true := by
  refine isLeapYear_iff.2 ⟨by omega, ?_⟩
  rcases hlast with hlast | rfl
  · exact .inl (by omega)
  · by_cases hend : cycle = 24
    · exact .inr (by omega)
    · exact .inl (by omega)

/-- Each day is a day of a year, the last of 366 days if the year ends in a leap day. -/
theorem exists_dateOfYear (days : Int) :
    ∃ year dayOfYear, dateOfDays days = dateOfYear year dayOfYear
      ∧ days = daysBeforeYear year + dayOfYear - epochDay
      ∧ (dayOfYear ≤ 364 ∨ dayOfYear = 365 ∧ isLeapYear (year + 1) = true) := by
  obtain ⟨day, hday⟩ : ∃ day : Nat, day = ((days + epochDay).fmod 146097).toNat := ⟨_, rfl⟩
  obtain ⟨era, hera⟩ : ∃ era, era = (days + epochDay).fdiv 146097 := ⟨_, rfl⟩
  have hsum : days + epochDay = 146097 * era + day ∧ day < 146097 := by
    rw [Int.fmod_eq_emod_of_nonneg _ (by omega)] at hday
    rw [Int.fdiv_eq_ediv_of_nonneg _ (by omega)] at hera
    omega
  obtain ⟨century, cycle, year, rest, hcentury, hcycle, hyear, hsplit, hrest⟩ :=
    exists_yearOfEra hsum.2
  refine ⟨(100 * century + 4 * cycle + year : Nat) + era * 400, rest, ?_, ?_, ?_⟩
  · have hdayOfYear : 36524 * century + 1461 * cycle + 365 * year + rest
        - (36524 * century + 1461 * cycle + 365 * year) = rest := by omega
    simp only [dateOfDays, ← hday, ← hera, yearOfEra_eq hcentury hcycle hyear hsplit hrest,
      daysBeforeYearOfEra hcentury hcycle hyear, dateOfYear]
    rw [hsplit, hdayOfYear]
  · rw [daysBeforeYear_era era hcentury hcycle hyear]
    omega
  · refine hrest.imp_right ?_
    rintro ⟨hlast, rfl, hend⟩
    exact ⟨hlast, isLeapYear_era era hcentury hcycle hend⟩

/-- The days of the months from March on add up to the days before each month. -/
theorem dateOfYear_spec {year : Int} {dayOfYear : Nat}
    (h : dayOfYear ≤ 364 ∨ dayOfYear = 365 ∧ isLeapYear (year + 1) = true) :
    let date := dateOfYear year dayOfYear
    1 ≤ date.2.1 ∧ date.2.1 ≤ 12 ∧ 1 ≤ date.2.2 ∧ date.2.2 ≤ daysInMonth date.1 date.2.1
      ∧ daysOfDate date.1 date.2.1 date.2.2 = daysBeforeYear year + dayOfYear - epochDay := by
  have hm : (5 * dayOfYear + 2) / 153 ≤ 11 := by omega
  unfold dateOfYear
  generalize hmonth : (5 * dayOfYear + 2) / 153 = m at hm
  rcases Nat.eq_or_lt_of_le hm with rfl | hm
  · -- February has a day more in a leap year
    have hday : dayOfYear - 337 + 1 ≤ if isLeapYear (year + 1) then 29 else 28 := by
      rcases h with h | ⟨rfl, hleap⟩
      · split <;> omega
      · rw [if_pos hleap]
    simp only [daysBeforeMonth, daysInMonth, daysOfDate, Nat.reduceLT, ↓reduceIte, Nat.reduceMul,
      Nat.reduceAdd, Nat.reduceDiv, Nat.reduceSub, Nat.reduceLeDiff, Int.add_sub_cancel, hday, true_and]
    omega
  · interval_cases m <;> simp only [daysBeforeMonth, daysInMonth, daysOfDate, Nat.reduceLT,
      ↓reduceIte, Nat.reduceMul, Nat.reduceAdd, Nat.reduceDiv, Nat.reduceSub, Nat.reduceLeDiff,
      Int.add_sub_cancel, true_and] <;> omega

/-- Counting days to a date and back gives the same days, and the date is one of the calendar. -/
theorem daysOfDate_dateOfDays {days year : Int} {month day : Nat}
    (h : dateOfDays days = (year, month, day)) :
    1 ≤ month ∧ month ≤ 12 ∧ 1 ≤ day ∧ day ≤ daysInMonth year month
      ∧ daysOfDate year month day = days := by
  obtain ⟨year', dayOfYear, hdate, hdays, hlast⟩ := exists_dateOfYear days
  have hspec := dateOfYear_spec hlast
  rwa [← hdate, ← hdays, h] at hspec

/-! ## Numbers -/

/-- Whether a text does not go on with a digit. -/
def EndsDigits (rest : List Char) : Prop :=
  ∀ c ∈ rest.head?, c.isDigit = false

theorem length_digits_le {width n : Nat} (hwidth : 0 < width) (h : n < 10 ^ width) :
    (Text.Integer.digits n).length ≤ width := by
  induction width generalizing n with
  | zero => exact absurd hwidth (by omega)
  | succ width ih =>
      unfold Text.Integer.digits
      split
      · simp
      · next hn =>
        have hwidth' : 0 < width := by
          refine Nat.pos_of_ne_zero fun hzero => hn ?_
          rwa [hzero] at h
        have hdiv : n / 10 < 10 ^ width := Nat.div_lt_of_lt_mul (by rwa [Nat.pow_succ'] at h)
        simpa using ih hwidth' hdiv

theorem length_padded {width n : Nat} (hwidth : 0 < width) (h : n < 10 ^ width) :
    (padded width n).length = width := by
  have hlength := length_digits_le hwidth h
  simp only [padded, List.length_append, List.length_replicate]
  omega

theorem isDigit_of_mem_padded {width n : Nat} {c : Char} (h : c ∈ padded width n) :
    c.isDigit = true := by
  rcases List.mem_append.1 h with h | h
  · rw [List.eq_of_mem_replicate h]
    rfl
  · exact Text.Integer.isDigit_of_mem_digits h

theorem natural?_padded (width n : Nat) : Text.Integer.natural? 10 (padded width n) = some n := by
  have hzeros : ∀ k ds, Text.Integer.continueDigits? 10 0 (List.replicate k '0' ++ ds)
      = Text.Integer.continueDigits? 10 0 ds := by
    intro k ds
    induction k with
    | zero => rfl
    | succ k ih => exact ih
  have hne : padded width n ≠ [] := by
    simp [padded, Text.Integer.digits_ne_nil]
  rw [Text.Integer.natural?, if_neg hne, padded, hzeros, Text.Integer.continueDigits?_digits]

/-- A number is read up to the end of its digits, be it that no more are taken or that no more follow. -/
theorem number?_padded {max width n : Nat} {rest : List Char} (hmax : (padded width n).length ≤ max)
    (hrest : (padded width n).length = max ∨ EndsDigits rest) :
    number? max (padded width n ++ rest) = some (n, rest) := by
  have htake : takeDigits max (padded width n ++ rest) = padded width n := by
    have hall : ∀ c ∈ padded width n, c.isDigit = true := fun c hc => isDigit_of_mem_padded hc
    rw [takeDigits, List.take_append, List.take_of_length_le hmax,
      List.takeWhile_append_of_pos hall]
    rcases hrest with hfull | hend
    · simp [hfull]
    · have hnone : (rest.take (max - (padded width n).length)).takeWhile Char.isDigit = [] := by
        cases rest with
        | nil => simp
        | cons c rest =>
            have hc : c.isDigit = false := hend c rfl
            cases max - (padded width n).length <;> simp [hc]
      rw [hnone, List.append_nil]
  rw [number?, htake, natural?_padded]
  simp

/-! ## Parts of a written instant -/

theorem exists_padded_eq_cons (width n : Nat) :
    ∃ c cs, padded width n = c :: cs ∧ c.isDigit = true := by
  have hne : padded width n ≠ [] := by simp [padded, Text.Integer.digits_ne_nil]
  obtain ⟨c, cs, h⟩ := List.exists_cons_of_ne_nil hne
  exact ⟨c, cs, h, isDigit_of_mem_padded (h ▸ List.mem_cons_self)⟩

theorem not_isBlank_of_isDigit {c : Char} (h : c.isDigit = true) : Text.isBlank c = false := by
  have hrange : 48 ≤ c.toNat ∧ c.toNat ≤ 57 := by
    simpa [Char.isDigit, UInt32.le_iff_toNat_le] using h
  simp only [Text.isBlank, Bool.or_eq_false_iff, Bool.and_eq_false_iff, decide_eq_false_iff_not,
    beq_eq_false_iff_ne]
  omega

theorem trimStart_cons {c : Char} (h : Text.isBlank c = false) (cs : List Char) :
    Text.trimStart (c :: cs) = c :: cs :=
  List.dropWhile_cons_of_neg (by simp [h])

theorem trimStart_padded (width n : Nat) (rest : List Char) :
    Text.trimStart (padded width n ++ rest) = padded width n ++ rest := by
  obtain ⟨c, cs, h, hc⟩ := exists_padded_eq_cons width n
  rw [h, List.cons_append, trimStart_cons (not_isBlank_of_isDigit hc)]

theorem shortNumber?_padded {n : Nat} (h : n < 100) (rest : List Char) :
    shortNumber? (padded 2 n ++ rest) = some (n, rest) := by
  have hlength : (padded 2 n).length = 2 := length_padded (by omega) h
  rw [shortNumber?, trimStart_padded]
  exact number?_padded (Nat.le_of_eq hlength) (.inl hlength)

theorem skip?_cons {sign : Char} (h : Text.isBlank sign = false) (rest : List Char) :
    skip? sign (sign :: rest) = some rest := by
  simp [skip?, trimStart_cons h]

theorem year?_writeYear (year : Int) {rest : List Char} (hrest : EndsDigits rest) :
    year? (writeYear year ++ rest) = some (year, rest) := by
  have hsigned : ∀ n, number? (padded 4 n ++ rest).length (padded 4 n ++ rest) = some (n, rest) :=
    fun n => number?_padded (by simp) (.inr hrest)
  unfold writeYear
  split
  · next h =>
    obtain ⟨c, cs, hpadded, hc⟩ := exists_padded_eq_cons 4 year.toNat
    have hlength : (padded 4 year.toNat).length = 4 := length_padded (by omega) (by omega)
    have hnumber : number? 4 (padded 4 year.toNat ++ rest) = some (year.toNat, rest) :=
      number?_padded (Nat.le_of_eq hlength) (.inl hlength)
    have hsign := Text.Integer.not_sign_of_isDigit hc
    rw [year?, trimStart_padded]
    rw [hpadded, List.cons_append] at hnumber ⊢
    split
    · next heq => exact absurd (List.cons.inj heq).1 hsign.1
    · next heq => exact absurd (List.cons.inj heq).1 hsign.2
    · rw [hnumber]
      simp [h.1]
  · split
    · next h =>
      rw [List.cons_append, year?, trimStart_cons rfl]
      show Option.map _ (number? _ (padded 4 year.natAbs ++ rest)) = _
      rw [hsigned, Option.map_some]
      simp only [Int.ofNat_natAbs_of_nonpos (Int.le_of_lt h), Int.neg_neg]
    · next h =>
      rw [List.cons_append, year?, trimStart_cons rfl]
      show Option.map _ (number? _ (padded 4 year.natAbs ++ rest)) = _
      rw [hsigned, Option.map_some]
      simp only [Int.natAbs_of_nonneg (Int.not_lt.1 h)]

/-- Digits behind a point stand for nanoseconds according to their number. -/
theorem fraction?_padded {width n : Nat} (hwidth : 0 < width) (hmax : width ≤ 9)
    (h : n < 10 ^ width) :
    fraction? ('.' :: (padded width n ++ ['Z'])) = some (n * Nat.pow 10 (9 - width), ['Z']) := by
  have hlength := length_padded hwidth h
  rw [fraction?, number?_padded (by omega) (.inr (by simp [EndsDigits]))]
  simp [hlength]

theorem fraction?_writeFraction {n : Nat} (h : n < 1000000000) :
    fraction? (writeFraction n ++ ['Z']) = some (n, ['Z']) := by
  unfold writeFraction
  split
  · next hzero =>
    rw [hzero]
    rfl
  · split
    · next hmilli =>
      rw [List.cons_append, fraction?_padded (by omega) (by omega) (by omega)]
      exact congrArg some (Prod.ext (Nat.div_mul_cancel (Nat.dvd_of_mod_eq_zero hmilli)) rfl)
    · split
      · next hmicro =>
        rw [List.cons_append, fraction?_padded (by omega) (by omega) (by omega)]
        exact congrArg some (Prod.ext (Nat.div_mul_cancel (Nat.dvd_of_mod_eq_zero hmicro)) rfl)
      · rw [List.cons_append, fraction?_padded (by omega) (by omega) h]
        simp

/-! ## Instants -/

/-- Whether a clock can show an instant: its year is one that dates can have, and more than a second's
worth of nanoseconds stands only in the last second of a minute. -/
structure IsShown (t : Instant) : Prop where
  year : isYear (dateOfDays (t.seconds.fdiv 86400)).1 = true
  nanoseconds : t.nanoseconds < 1000000000
    ∨ t.nanoseconds < 2000000000 ∧ (t.seconds.fmod 86400).toNat % 60 = 59

theorem bind_eq_of_eq_some {α β : Type} {o : Option α} {a : α} (h : o = some a) (f : α → Option β) :
    (o >>= f) = f a := by
  rw [h]
  rfl

/-- The parts of a written instant are read one after the other. -/
theorem read?_parts {year : Int} {month day hour minute second nanoseconds : Nat}
    (hmonth : month < 100) (hday : day < 100) (hhour : hour < 100) (hminute : minute < 100)
    (hsecond : second < 100) (hnanoseconds : nanoseconds < 1000000000) {t : Instant}
    (hdate : isYear year = true ∧ 1 ≤ month ∧ month ≤ 12 ∧ 1 ≤ day ∧ day ≤ daysInMonth year month)
    (htime : hour ≤ 23 ∧ minute ≤ 59 ∧ second ≤ 60)
    (hseconds : t.seconds = daysOfDate year month day * 86400
      + (hour * 3600 + minute * 60 + min second 59 : Nat))
    (hfraction : t.nanoseconds = nanoseconds + if second = 60 then 1000000000 else 0)
    (hyear : isYear (dateOfDays (t.seconds.fdiv 86400)).1 = true) :
    read? (String.ofList (writeYear year ++ '-' :: padded 2 month ++ '-' :: padded 2 day
      ++ 'T' :: padded 2 hour ++ ':' :: padded 2 minute ++ ':' :: padded 2 second
      ++ writeFraction nanoseconds ++ ['Z'])) = some t := by
  have hends : ∀ rest, EndsDigits ('-' :: rest) := fun rest => by simp [EndsDigits]
  have hdash : ∀ rest, skip? '-' ('-' :: rest) = some rest := skip?_cons rfl
  have hcolon : ∀ rest, skip? ':' (':' :: rest) = some rest := skip?_cons rfl
  have hzone : offset? (Text.trimStart ['Z']) = some (0, []) := by decide
  simp only [read?, String.toList_ofList, List.append_assoc, List.cons_append]
  rw [bind_eq_of_eq_some (year?_writeYear year (hends _)), bind_eq_of_eq_some (hdash _),
    bind_eq_of_eq_some (shortNumber?_padded hmonth _), bind_eq_of_eq_some (hdash _),
    bind_eq_of_eq_some (shortNumber?_padded hday _)]
  split
  · next heq => exact absurd (List.cons.inj heq).1 (by decide)
  · next heq =>
    cases heq
    rw [bind_eq_of_eq_some rfl, bind_eq_of_eq_some (shortNumber?_padded hhour _),
      bind_eq_of_eq_some (hcolon _), bind_eq_of_eq_some (shortNumber?_padded hminute _),
      bind_eq_of_eq_some (hcolon _), bind_eq_of_eq_some (shortNumber?_padded hsecond _),
      bind_eq_of_eq_some (fraction?_writeFraction hnanoseconds), bind_eq_of_eq_some hzone]
    simp only [hdate, htime, Int.sub_zero, ← hseconds, ← hfraction]
    rw [if_pos (by simp [Text.trimStart]), if_pos hyear]
  · next heq => exact absurd (List.cons.inj heq).1 (by decide)
  · next hnone _ => exact (hnone _ rfl).elim

/-- An instant that a clock can show is read back as it was written. -/
theorem read?_write {t : Instant} (h : t.IsShown) : read? t.write = some t := by
  obtain ⟨year, month, day, hdate⟩ :
      ∃ year month day, dateOfDays (t.seconds.fdiv 86400) = (year, month, day) := ⟨_, _, _, rfl⟩
  obtain ⟨hmonth, htwelve, hday, hdays, hcount⟩ := daysOfDate_dateOfDays hdate
  have hdaysInMonth : daysInMonth year month ≤ 31 := by
    unfold daysInMonth
    repeat' split
    all_goals omega
  have hyear : isYear year = true := by simpa only [hdate] using h.year
  have hnanoseconds := h.nanoseconds
  obtain ⟨second, hsecond⟩ : ∃ second, second = (t.seconds.fmod 86400).toNat := ⟨_, rfl⟩
  rw [← hsecond] at hnanoseconds
  have hseconds : t.seconds = t.seconds.fdiv 86400 * 86400 + second ∧ second < 86400 := by
    rw [Int.fmod_eq_emod_of_nonneg _ (by omega)] at hsecond
    rw [Int.fdiv_eq_ediv_of_nonneg _ (by omega)]
    omega
  obtain ⟨leap, hleap⟩ : ∃ leap, leap = if 1000000000 ≤ t.nanoseconds then 1 else 0 := ⟨_, rfl⟩
  simp only [write, hdate, ← hsecond, ← hleap]
  -- the last second of a minute is written as its sixtieth within a leap second
  have hsplit : leap = 0 ∧ t.nanoseconds < 1000000000
      ∨ leap = 1 ∧ 1000000000 ≤ t.nanoseconds ∧ t.nanoseconds < 2000000000 ∧ second % 60 = 59 := by
    split at hleap <;> omega
  refine read?_parts (by omega) (by omega) (by omega) (by omega) (by omega) (by omega)
    ⟨hyear, hmonth, htwelve, hday, hdays⟩ (by omega) ?_ ?_ h.year
  · rw [hcount]
    rcases hsplit with ⟨rfl, -⟩ | ⟨rfl, -, -, hlast⟩ <;> omega
  · rcases hsplit with ⟨rfl, hlt⟩ | ⟨rfl, hle, -, hlast⟩
    · rw [if_neg (by omega)]
      omega
    · rw [if_pos (by omega)]
      omega

end Configurator.Instant
