/-
Duplex/Http/Date.lean

Dates as they stand in header lines.

A moment is a number of seconds since the beginning of 1970. The calendar
repeats every 400 years, and a year is counted from March on, so that a leap
day is the last day of its year.

Main definitions: `Date.ofDays`, `Date.text`.
-/
import Duplex.Text.Decimal

namespace Duplex

/-- A day of the calendar. -/
structure Date where
  year : Nat
  /-- The month, from 1. -/
  month : Nat
  /-- The day of the month, from 1. -/
  day : Nat
  deriving DecidableEq, Repr

namespace Date

/-- The day that comes so many days after the first of January 1970. -/
def ofDays (days : Nat) : Date :=
  let sinceMarch := days + 719468
  let era := sinceMarch / 146097
  let dayOfEra := sinceMarch % 146097
  let yearOfEra := (dayOfEra - dayOfEra / 1460 + dayOfEra / 36524 - dayOfEra / 146096) / 365
  let dayOfYear := dayOfEra - (365 * yearOfEra + yearOfEra / 4 - yearOfEra / 100)
  let monthFromMarch := (5 * dayOfYear + 2) / 153
  let month := if monthFromMarch < 10 then monthFromMarch + 3 else monthFromMarch - 9
  { year := yearOfEra + era * 400 + (if month ≤ 2 then 1 else 0)
    month := month
    day := dayOfYear - (153 * monthFromMarch + 2) / 5 + 1 }

/-- The names of the days, from the one of the first of January 1970. -/
def dayNames : List String := ["Thu", "Fri", "Sat", "Sun", "Mon", "Tue", "Wed"]

/-- The names of the months. -/
def monthNames : List String :=
  ["Jan", "Feb", "Mar", "Apr", "May", "Jun", "Jul", "Aug", "Sep", "Oct", "Nov", "Dec"]

/-- A number with at least `width` digits. -/
def padded (width n : Nat) : String :=
  String.ofList ((Text.Decimal.chars n).leftpad width '0')

/-- The text of a moment. -/
def text (seconds : Nat) : String :=
  let days := seconds / 86400
  let date := ofDays days
  let clock := seconds % 86400
  dayNames.getD (days % 7) "" ++ ", " ++ padded 2 date.day ++ " " ++
    monthNames.getD (date.month - 1) "" ++ " " ++ padded 4 date.year ++ " " ++
    padded 2 (clock / 3600) ++ ":" ++ padded 2 (clock / 60 % 60) ++ ":" ++
    padded 2 (clock % 60) ++ " GMT"

example : ofDays 19782 = ⟨2024, 2, 29⟩ := by decide

end Date

end Duplex
