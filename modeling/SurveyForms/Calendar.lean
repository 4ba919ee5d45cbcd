import SurveyForms.Text.Lines

/-! Moments and their date in Coordinated Universal Time, by the Gregorian calendar carried on
in both directions. Leap seconds are not counted. -/
namespace SurveyForms

/-- A point in time as a clock shows it: seconds since the start of 1970 and the offset of the
clock's zone. The offset says how the clock displays the moment, not which moment it is. -/
structure Moment where
  unix : Int
  zone : Int
  deriving DecidableEq, Repr

structure CivilTime where
  year : Int
  month : Nat
  day : Nat
  hour : Nat
  minute : Nat
  second : Nat
  deriving DecidableEq, Repr

namespace CivilTime

/-- Days from the first of March of the year 0 to the start of 1970. -/
def epochShift : Int := 719468

def eraDays : Nat := 146097

/-- Year, month and day of a count of days since the start of 1970. Years are counted from March
on at first, so that the leap day is the last day of its year. -/
def dateOfDays (days : Int) : Int × Nat × Nat :=
  let shifted := days + epochShift
  let era := shifted / eraDays
  let dayOfEra := (shifted % eraDays).toNat
  let yearOfEra := (dayOfEra - dayOfEra / 1460 + dayOfEra / 36524 - dayOfEra / 146096) / 365
  let dayOfYear := dayOfEra - (365 * yearOfEra + yearOfEra / 4 - yearOfEra / 100)
  let monthFromMarch := (5 * dayOfYear + 2) / 153
  let day := dayOfYear - (153 * monthFromMarch + 2) / 5 + 1
  let month := if monthFromMarch < 10 then monthFromMarch + 3 else monthFromMarch - 9
  let year := era * 400 + yearOfEra
  (if month ≤ 2 then year + 1 else year, month, day)

def daySeconds : Nat := 86400

/-- The first second that clocks count: the start of March of the year -292277022400. -/
def firstSecond : Int := (-730692556 * eraDays - epochShift) * daySeconds

/-- Clocks count so many seconds, 64 binary digits, and then start again. -/
def clockSpan : Int := 18446744073709551616

def shownSecond (unix : Int) : Int := firstSecond + (unix - firstSecond) % clockSpan

def ofUnix (unix : Int) : CivilTime :=
  let unix := shownSecond unix
  let (year, month, day) := dateOfDays (unix / daySeconds)
  let second := (unix % daySeconds).toNat
  ⟨year, month, day, second / 3600, second / 60 % 60, second % 60⟩

def digits (width n : Nat) : String := Text.padLeft '0' width (toString n)

/-- The year with at least four digits, with a minus sign in front of a negative one. -/
def yearText (year : Int) : String :=
  if year < 0 then "-" ++ digits 4 year.natAbs else digits 4 year.natAbs

def dateText (t : CivilTime) : String :=
  yearText t.year ++ "-" ++ digits 2 t.month ++ "-" ++ digits 2 t.day

/-- For instance `2024-03-05T14:07:00Z`. -/
def stamp (t : CivilTime) : String :=
  t.dateText ++ "T" ++ digits 2 t.hour ++ ":" ++ digits 2 t.minute ++ ":" ++ digits 2 t.second ++
    "Z"

/-- For instance `2024-03-05 14:07`. -/
def minuteText (t : CivilTime) : String :=
  t.dateText ++ " " ++ digits 2 t.hour ++ ":" ++ digits 2 t.minute

/-- Ten digits: the last two of the year, month, day, hour and minute. The sign of the year does
not count. -/
def version (t : CivilTime) : String :=
  digits 2 (t.year.natAbs % 100) ++ digits 2 t.month ++ digits 2 t.day ++ digits 2 t.hour ++
    digits 2 t.minute

end CivilTime

def Moment.utc (m : Moment) : CivilTime := .ofUnix m.unix

end SurveyForms
