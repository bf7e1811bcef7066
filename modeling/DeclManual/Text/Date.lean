/-!
# Dates

A moment is a number of seconds since the start of 1970.  Its date is that of the
proleptic Gregorian calendar in universal time.
-/

namespace DeclManual
namespace Text

/-- A day of the calendar. -/
structure Date where
  year : Int
  /-- From 1 to 12. -/
  month : Nat
  /-- From 1 to 31. -/
  day : Nat
deriving DecidableEq, Repr, Inhabited

namespace Date

/-- The date of a day counted from the first of March of the year 0.  Years are
taken to start in March, so that a leap day ends its year. -/
def ofMarchDays (days : Int) : Date :=
  let era := days.fdiv 146097
  let dayOfEra := (days - era * 146097).toNat
  let yearOfEra := (dayOfEra - dayOfEra / 1460 + dayOfEra / 36524 - dayOfEra / 146096) / 365
  let dayOfYear := dayOfEra - (365 * yearOfEra + yearOfEra / 4 - yearOfEra / 100)
  let fromMarch := (5 * dayOfYear + 2) / 153
  let month := if fromMarch < 10 then fromMarch + 3 else fromMarch - 9
  { year := era * 400 + yearOfEra + (if month ≤ 2 then 1 else 0)
    month
    day := dayOfYear - (153 * fromMarch + 2) / 5 + 1 }

/-- The date of a moment. -/
def ofSeconds (seconds : Int) : Date :=
  ofMarchDays (seconds.fdiv 86400 + 719468)

/-- The English names of the months. -/
def monthNames : List String :=
  ["January", "February", "March", "April", "May", "June", "July", "August", "September",
    "October", "November", "December"]

/-- A number with at least four digits. -/
def fourDigits (n : Nat) : String :=
  let digits := Nat.toDigits 10 n
  String.ofList (List.replicate (4 - digits.length) '0' ++ digits)

/-- A year with at least four digits, and with its sign outside 0 to 9999. -/
def yearText (year : Int) : String :=
  if year < 0 then "-" ++ fourDigits year.natAbs
  else if 9999 < year then "+" ++ fourDigits year.natAbs
  else fourDigits year.natAbs

/-- The date as day, month name and year. -/
def toText (date : Date) : String :=
  toString date.day ++ " " ++ monthNames.getD (date.month - 1) "" ++ " " ++ yearText date.year

end Date
end Text
end DeclManual
