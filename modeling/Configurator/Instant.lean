import Configurator.Text
import Configurator.Text.Integer

/-!
# Instants

Moments of universal time, as a project records when it was saved. The written form is that of
RFC 3339: date, the letter `T`, time, and `Z`; the reader also takes other offsets, blanks between the
parts, and years of any length that carry a sign.
-/

namespace Configurator

/-- A moment: seconds since the beginning of 1970, leap seconds aside, and nanoseconds, of which there
are more than a second's worth within a leap second. -/
structure Instant where
  seconds : Int
  nanoseconds : Nat
  deriving DecidableEq, Inhabited, Repr

namespace Instant

/-! ## Calendar -/

/-- Years are counted from March on, so that a leap day is the last day of its year. The days from
the first of March in year 0 to the first of March in the year `y`. -/
def daysBeforeYear (y : Int) : Int :=
  365 * y + y.fdiv 4 - y.fdiv 100 + y.fdiv 400

/-- The days from the first of March to the first of a month, which is counted from March. -/
def daysBeforeMonth (m : Nat) : Nat :=
  (153 * m + 2) / 5

/-- The first of January 1970 in days since the first of March in year 0. -/
def epochDay : Int := 719468

/-- Days from the beginning of 1970 to a date. -/
def daysOfDate (year : Int) (month day : Nat) : Int :=
  let y := if month ≤ 2 then year - 1 else year
  let m := if month ≤ 2 then month + 9 else month - 3
  daysBeforeYear y + daysBeforeMonth m + day - 1 - epochDay

/-- The date that is some days from the beginning of 1970. -/
def dateOfDays (days : Int) : Int × Nat × Nat :=
  let d := days + epochDay
  let era := d.fdiv 146097
  let dayOfEra := (d.fmod 146097).toNat
  let yearOfEra := (dayOfEra - dayOfEra / 1460 + dayOfEra / 36524 - dayOfEra / 146096) / 365
  let dayOfYear := dayOfEra - (365 * yearOfEra + yearOfEra / 4 - yearOfEra / 100)
  let m := (5 * dayOfYear + 2) / 153
  let month := if m < 10 then m + 3 else m - 9
  let year := yearOfEra + era * 400
  (if month ≤ 2 then year + 1 else year, month, dayOfYear - daysBeforeMonth m + 1)

def isLeapYear (year : Int) : Bool :=
  year % 4 = 0 && (year % 100 ≠ 0 || year % 400 = 0)

def daysInMonth (year : Int) : Nat → Nat
  | 2 => if isLeapYear year then 29 else 28
  | 4 | 6 | 9 | 11 => 30
  | _ => 31

/-- The years that dates can have. -/
def isYear (year : Int) : Bool :=
  -262143 ≤ year && year ≤ 262142

/-! ## Writing -/

/-- At least `width` digits, with zeros in front. -/
def padded (width n : Nat) : List Char :=
  let ds := Text.Integer.digits n
  List.replicate (width - ds.length) '0' ++ ds

/-- Four digits, or a sign and at least four digits where they do not suffice. -/
def writeYear (year : Int) : List Char :=
  if 0 ≤ year ∧ year ≤ 9999 then padded 4 year.toNat
  else (if year < 0 then '-' else '+') :: padded 4 year.natAbs

/-- A fraction of a second in three, six or nine digits, whichever suffice, and nothing for zero. -/
def writeFraction (nanoseconds : Nat) : List Char :=
  if nanoseconds = 0 then []
  else if nanoseconds % 1000000 = 0 then '.' :: padded 3 (nanoseconds / 1000000)
  else if nanoseconds % 1000 = 0 then '.' :: padded 6 (nanoseconds / 1000)
  else '.' :: padded 9 nanoseconds

def write (t : Instant) : String :=
  let (year, month, day) := dateOfDays (t.seconds.fdiv 86400)
  let second := (t.seconds.fmod 86400).toNat
  let leap := if 1000000000 ≤ t.nanoseconds then 1 else 0
  String.ofList (writeYear year ++ '-' :: padded 2 month ++ '-' :: padded 2 day
    ++ 'T' :: padded 2 (second / 3600) ++ ':' :: padded 2 (second / 60 % 60)
    ++ ':' :: padded 2 (second % 60 + leap)
    ++ writeFraction (t.nanoseconds - leap * 1000000000) ++ ['Z'])

/-! ## Reading -/

/-- The digits at the beginning of a text, `max` of them at most. -/
def takeDigits (max : Nat) (cs : List Char) : List Char :=
  (cs.take max).takeWhile Char.isDigit

/-- A number of at most `max` digits, and what follows it. -/
def number? (max : Nat) (cs : List Char) : Option (Nat × List Char) :=
  let ds := takeDigits max cs
  (Text.Integer.natural? 10 ds).map fun n => (n, cs.drop ds.length)

/-- A number of at most two digits behind any blanks. -/
def shortNumber? (cs : List Char) : Option (Nat × List Char) :=
  number? 2 (Text.trimStart cs)

/-- A year behind any blanks: up to four digits, or a sign and any number of digits. -/
def year? (cs : List Char) : Option (Int × List Char) :=
  match Text.trimStart cs with
  | '-' :: rest => (number? rest.length rest).map fun (n, rest) => (-(n : Int), rest)
  | '+' :: rest => (number? rest.length rest).map fun (n, rest) => ((n : Int), rest)
  | rest => (number? 4 rest).map fun (n, rest) => ((n : Int), rest)

/-- Skips a sign behind any blanks. -/
def skip? (sign : Char) (cs : List Char) : Option (List Char) :=
  match Text.trimStart cs with
  | c :: rest => if c = sign then some rest else none
  | [] => none

/-- Nanoseconds behind a point, if there is one; digits behind the ninth do not count. -/
def fraction? : List Char → Option (Nat × List Char)
  | '.' :: rest =>
    (number? 9 rest).map fun (n, behind) =>
      (n * Nat.pow 10 (9 - (rest.length - behind.length)), behind.dropWhile Char.isDigit)
  | rest => some (0, rest)

def twoDigits? : List Char → Option (Nat × List Char)
  | c :: d :: rest => (Text.Integer.natural? 10 [c, d]).map fun n => (n, rest)
  | _ => none

/-- Hours and minutes of an offset, two digits each, with any colons and blanks between them. -/
def offsetSeconds? (cs : List Char) : Option (Nat × List Char) := do
  let (hours, rest) ← twoDigits? cs
  let (minutes, rest) ← twoDigits? (rest.dropWhile fun c => c == ':' || Text.isBlank c)
  if minutes ≤ 59 then some (hours * 3600 + minutes * 60, rest) else none

/-- An offset from universal time in seconds. A minus may also be the sign of mathematics. -/
def offset? (cs : List Char) : Option (Int × List Char) :=
  if Text.asciiLower (cs.take 3) = ['u', 't', 'c'] then some (0, cs.drop 3)
  else
    match cs with
    | 'Z' :: rest => some (0, rest)
    | 'z' :: rest => some (0, rest)
    | '+' :: rest => (offsetSeconds? rest).map fun (n, rest) => ((n : Int), rest)
    | '-' :: rest => (offsetSeconds? rest).map fun (n, rest) => (-(n : Int), rest)
    | '−' :: rest => (offsetSeconds? rest).map fun (n, rest) => (-(n : Int), rest)
    | _ => none

/-- The instant that a text writes. -/
def read? (text : String) : Option Instant := do
  let (year, rest) ← year? text.toList
  let (month, rest) ← shortNumber? (← skip? '-' rest)
  let (day, rest) ← shortNumber? (← skip? '-' rest)
  let rest ← match rest with
    | 't' :: rest | 'T' :: rest | ' ' :: rest => some rest
    | _ => none
  let (hour, rest) ← shortNumber? rest
  let (minute, rest) ← shortNumber? (← skip? ':' rest)
  let (second, rest) ← shortNumber? (← skip? ':' rest)
  let (nanoseconds, rest) ← fraction? rest
  let (offset, rest) ← offset? (Text.trimStart rest)
  if Text.trimStart rest = [] ∧ isYear year ∧ 1 ≤ month ∧ month ≤ 12
      ∧ 1 ≤ day ∧ day ≤ daysInMonth year month
      ∧ hour ≤ 23 ∧ minute ≤ 59 ∧ second ≤ 60 ∧ offset.natAbs < 86400 then
    let ofDay : Nat := hour * 3600 + minute * 60 + min second 59
    let leap := if second = 60 then 1000000000 else 0
    let t : Instant := ⟨daysOfDate year month day * 86400 + ofDay - offset, nanoseconds + leap⟩
    if isYear (dateOfDays (t.seconds.fdiv 86400)).1 then some t else none
  else none

end Instant

end Configurator
