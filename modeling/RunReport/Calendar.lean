import RunReport.Text.Cut
/-!
# Calendar

Instants are milliseconds since 1970-01-01T00:00:00Z in the proleptic Gregorian calendar. They run
from the start of the year -262143 to the end of the year 262142.
-/

namespace RunReport

structure Instant where
  millis : Int
  deriving DecidableEq, Repr

structure Date where
  year : Int
  month : Nat
  day : Nat
  deriving DecidableEq, Repr

namespace Calendar

def millisPerDay : Int := 86400000

def earliest : Int := -8334601228800000

def latest : Int := 8210266876799999

def isRepresentable (millis : Int) : Bool :=
  earliest ≤ millis && millis ≤ latest

/-- The date of a day counted from 1970-01-01. Years start in March here, so that the leap day is
the last of its year; an era is 400 years. -/
def dateOfDay (day : Int) : Date :=
  let z := day + 719468
  let era := z.fdiv 146097
  let dayOfEra := (z - era * 146097).toNat
  let yearOfEra := (dayOfEra - dayOfEra / 1460 + dayOfEra / 36524 - dayOfEra / 146096) / 365
  let dayOfYear := dayOfEra - (365 * yearOfEra + yearOfEra / 4 - yearOfEra / 100)
  let shifted := (5 * dayOfYear + 2) / 153
  let day := dayOfYear - (153 * shifted + 2) / 5 + 1
  let month := if shifted < 10 then shifted + 3 else shifted - 9
  let year := (yearOfEra : Int) + era * 400 + (if month ≤ 2 then 1 else 0)
  ⟨year, month, day⟩

/-- Four digits, with a sign outside 0 to 9999. -/
def showYear (year : Int) : String :=
  if 0 ≤ year && year ≤ 9999 then Text.padZero 4 year.toNat
  else (if year < 0 then "-" else "+") ++ Text.padZero 4 year.natAbs

end Calendar

namespace Instant

def date (t : Instant) : Date :=
  Calendar.dateOfDay (t.millis.fdiv Calendar.millisPerDay)

def millisOfDay (t : Instant) : Nat :=
  (t.millis.fmod Calendar.millisPerDay).toNat

/-- Hours, minutes and seconds. -/
def clock (t : Instant) : String :=
  let s := t.millisOfDay / 1000
  Text.padZero 2 (s / 3600) ++ ":" ++ Text.padZero 2 (s / 60 % 60) ++ ":" ++ Text.padZero 2 (s % 60)

def milli (t : Instant) : Nat :=
  t.millisOfDay % 1000

def showDate (t : Instant) : String :=
  let d := t.date
  Calendar.showYear d.year ++ Text.padZero 2 d.month ++ Text.padZero 2 d.day

def showTime (t : Instant) : String :=
  t.clock ++ "." ++ Text.padZero 3 t.milli

def showDateTime (t : Instant) : String :=
  t.showDate ++ " " ++ t.showTime

/-- The form used in JSON; whole seconds have no decimals. -/
def rfc3339 (t : Instant) : String :=
  let d := t.date
  Calendar.showYear d.year ++ "-" ++ Text.padZero 2 d.month ++ "-" ++ Text.padZero 2 d.day ++ "T"
    ++ t.clock ++ (if t.milli = 0 then "" else "." ++ Text.padZero 3 t.milli) ++ "Z"

end Instant

end RunReport
