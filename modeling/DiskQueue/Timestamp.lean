/-
Module: DiskQueue.Timestamp
Purpose: Instants as dates and times of day.
Trusted boundary: none
Main exports:
  Timestamp.Date, Timestamp.dateOfDays, Timestamp.format
-/
import DiskQueue.Decimal

namespace DiskQueue.Timestamp

/-!
An instant is a number of milliseconds since the first of January 1970. A year is
counted from the first of March, so that the day that is put in from time to time
is the last one of its year. Four hundred years are 146097 days.
-/

/-- A day in the calendar. -/
structure Date where
  year : Int
  month : Nat
  day : Nat
deriving Repr, DecidableEq

/-- The day that many days after the first of January 1970. -/
def dateOfDays (days : Int) : Date :=
  let sinceMarch := days + 719468
  let cycle := sinceMarch.fdiv 146097
  let dayOfCycle := (sinceMarch - cycle * 146097).toNat
  let yearOfCycle :=
    (dayOfCycle - dayOfCycle / 1460 + dayOfCycle / 36524 - dayOfCycle / 146096) / 365
  let dayOfYear := dayOfCycle - (365 * yearOfCycle + yearOfCycle / 4 - yearOfCycle / 100)
  let monthFromMarch := (5 * dayOfYear + 2) / 153
  let month := if monthFromMarch < 10 then monthFromMarch + 3 else monthFromMarch - 9
  let year := (yearOfCycle : Int) + cycle * 400
  ⟨if month ≤ 2 then year + 1 else year, month, dayOfYear - (153 * monthFromMarch + 2) / 5 + 1⟩

/-- A number in at least so many places. -/
def places (width : Nat) (n : Int) : String := Utf8.lossy (Decimal.padded width n)

/-- An instant as date and time of day in UTC. Milliseconds are left out if they
are zero. -/
def format (millis : Int) : String :=
  let seconds := millis.fdiv 1000
  let fraction := millis.fmod 1000
  let date := dateOfDays (seconds.fdiv 86400)
  let time := seconds.fmod 86400
  let tail := if fraction = 0 then "" else "." ++ places 3 fraction
  places 4 date.year ++ "-" ++ places 2 date.month ++ "-" ++ places 2 date.day ++ "T"
    ++ places 2 (time / 3600) ++ ":" ++ places 2 (time / 60 % 60) ++ ":" ++ places 2 (time % 60)
    ++ tail ++ "+00:00"

/-- The last day of February in a leap year, and the first day of the count. -/
example : dateOfDays 19782 = ⟨2024, 2, 29⟩ ∧ dateOfDays 0 = ⟨1970, 1, 1⟩ := by decide

end DiskQueue.Timestamp
