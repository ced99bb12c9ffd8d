import Sutra.Lib.Scan

/-!
# The temporal values of FEEL

The four temporal kinds (`date`, `time`, `date and time`, `duration`) and the parser of duration
literals. The calendar is the proleptic Gregorian one with years from -999999 to 999999.

* `Date`, `Time`, `OffsetDateTime`, `FeelDuration`, `Temporal`: the values, valid by construction.
* `parseDuration`: the literals of durations, as `parse_iso_duration` reads them.
-/

namespace Sutra.Feel

open Scan

/-! ## Calendar values -/

def isLeapYear (year : Int) : Bool := year % 4 == 0 && (year % 100 != 0 || year % 400 == 0)

def daysInMonth (year : Int) (month : Nat) : Nat :=
  if month = 2 then (if isLeapYear year then 29 else 28)
  else if month = 4 ∨ month = 6 ∨ month = 9 ∨ month = 11 then 30
  else if 1 ≤ month ∧ month ≤ 12 then 31
  else 0

def Date.Valid (year : Int) (month day : Nat) : Prop :=
  (-999999 ≤ year ∧ year ≤ 999999) ∧ 1 ≤ day ∧ day ≤ daysInMonth year month

instance (year : Int) (month day : Nat) : Decidable (Date.Valid year month day) :=
  inferInstanceAs (Decidable (_ ∧ _))

structure Date where
  year : Int
  month : Nat
  day : Nat
  valid : Date.Valid year month day
  deriving DecidableEq

namespace Date

def fromCalendarDate (year : Int) (month day : Nat) : Option Date :=
  if h : Valid year month day then some ⟨year, month, day, h⟩ else none

end Date

structure Time where
  hour : Nat
  minute : Nat
  second : Nat
  nanosecond : Nat
  valid : hour < 24 ∧ minute < 60 ∧ second < 60 ∧ nanosecond < 10 ^ 9
  deriving DecidableEq

structure UtcOffset where
  seconds : Int
  inRange : seconds.natAbs < 26 * 3600
  deriving DecidableEq

namespace UtcOffset

def utc : UtcOffset := ⟨0, by decide⟩

end UtcOffset

structure PrimitiveDateTime where
  date : Date
  time : Time
  deriving DecidableEq

structure OffsetDateTime where
  wall : PrimitiveDateTime
  offset : UtcOffset
  deriving DecidableEq

inductive TimeQualifier where
  | zulu
  | offset (o : UtcOffset)
  | zone (name : String)
  deriving DecidableEq

/-- A span of time: whole seconds and a fraction of the same sign. -/
structure Duration where
  seconds : Int64
  nanoseconds : Int
  valid : nanoseconds.natAbs < 10 ^ 9 ∧ (0 < seconds.toInt → 0 ≤ nanoseconds) ∧
    (seconds.toInt < 0 → nanoseconds ≤ 0)
  deriving DecidableEq

namespace Duration

def ofSeconds (seconds : Int64) : Duration :=
  ⟨seconds, 0, by decide, fun _ => le_rfl, fun _ => le_rfl⟩

end Duration

inductive FeelDuration where
  | yearsMonths (months : Int32)
  | daysTime (span : Duration)
  deriving DecidableEq

/-- A temporal value, as a literal spells it. -/
inductive Temporal where
  | instant (t : OffsetDateTime) (qualifier : Option TimeQualifier)
  | date (d : Date)
  | time (t : Time) (qualifier : Option TimeQualifier)
  | duration (d : FeelDuration)
  deriving DecidableEq

/-! ## Durations -/

/-- Consecutive pairs of an integer and a unit letter; the fraction of a number is dropped. -/
def isoPairsFrom : List Char → List Char → List (Int64 × Char) → Option (List (Int64 × Char))
  | [], num, out => if num.isEmpty then some out else none
  | c :: cs, num, out =>
    if c.isDigit || c == '.' then isoPairsFrom cs (num ++ [c]) out
    else if c.isAlpha then
      if num.isEmpty then none
      else
        let intPart := num.takeWhile (· != '.')
        let n := if intPart.isEmpty then some 0
          else (integer (-(2 ^ 63)) (2 ^ 63 - 1) intPart).map Int64.ofInt
        n.bind fun n => isoPairsFrom cs [] (out ++ [(n, c)])
    else none

def isoPairs (s : List Char) : Option (List (Int64 × Char)) := isoPairsFrom s [] []

/-- What the date part of a duration has added up to. -/
structure DateUnits where
  years : Int64 := 0
  months : Int64 := 0
  days : Int64 := 0
  hasYm : Bool := false
  hasDay : Bool := false

def DateUnits.add (u : DateUnits) (pair : Int64 × Char) : Option DateUnits :=
  match pair with
  | (num, 'Y') => some { u with years := num, hasYm := true }
  | (num, 'M') => some { u with months := num, hasYm := true }
  | (num, 'W') => some { u with days := u.days + num * 7, hasDay := true }
  | (num, 'D') => some { u with days := u.days + num, hasDay := true }
  | _ => none

/-- What the time part of a duration has added up to. -/
structure TimeUnits where
  hours : Int64 := 0
  mins : Int64 := 0
  secs : Int64 := 0
  hasTime : Bool := false

def TimeUnits.add (u : TimeUnits) (pair : Int64 × Char) : Option TimeUnits :=
  match pair with
  | (num, 'H') => some { u with hours := num, hasTime := true }
  | (num, 'M') => some { u with mins := num, hasTime := true }
  | (num, 'S') => some { u with secs := num, hasTime := true }
  | _ => none

def sign (negative : Bool) (v : Int64) : Int64 := if negative then -v else v

/-- The duration that the units of a text make: the kind is decided by the letters, not by the
values. -/
def durationOf (negative : Bool) (d : DateUnits) (t : TimeUnits) : FeelDuration :=
  if d.hasYm && !d.hasDay && !t.hasTime then
    .yearsMonths (sign negative (d.years * 12 + d.months)).toInt32
  else
    .daysTime (.ofSeconds (sign negative (d.days * 86400 + t.hours * 3600 + t.mins * 60 + t.secs)))

def parseDurationBody (negative : Bool) (body : List Char) : Option FeelDuration := do
  let (datePart, timePart) := (splitOnce 'T' body).getD (body, [])
  let datePairs ← isoPairs datePart
  let timePairs ← isoPairs timePart
  if datePairs.isEmpty && timePairs.isEmpty then none
  let d ← datePairs.foldlM DateUnits.add {}
  let t ← timePairs.foldlM TimeUnits.add {}
  pure (durationOf negative d t)

def parseDuration : List Char → Option FeelDuration
  | '-' :: 'P' :: body => parseDurationBody true body
  | 'P' :: body => parseDurationBody false body
  | _ => none

end Sutra.Feel
