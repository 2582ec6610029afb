import MarketMaker.Decimal.Numeral

/-!
# Times in UTC

A point in time as a date and a time of day: `2023-11-14T22:13:20Z`. A fraction of a second has
three, six or nine digits, the fewest that are exact, and is left out when zero. Years from 0 to 9999
have four digits and no sign, all others a sign and at least four digits.

Days are counted in eras of 400 years that start with a first of March, so that the leap day ends its
year, its century and its era.
-/

namespace MarketMaker

/-- A point in time: seconds since the start of 1970, and nanoseconds past them. -/
structure UtcTime where
  seconds : Int
  nanoseconds : Nat
deriving DecidableEq

namespace UtcTime

/-- The time that is some nanoseconds after the start of 1970. -/
def ofNanoseconds (n : Int) : UtcTime :=
  ⟨Int.fdiv n 1000000000, (Int.fmod n 1000000000).toNat⟩

/-- Whole milliseconds since the start of 1970. -/
def milliseconds (t : UtcTime) : Int :=
  t.seconds * 1000 + t.nanoseconds / 1000000

/-- A date. -/
structure Date where
  year : Int
  month : Nat
  day : Nat
deriving DecidableEq, Repr

/-- The date that is some days after the first of January 1970. -/
def dateOf (days : Int) : Date :=
  let shifted := days + 719468
  let era := Int.fdiv shifted 146097
  let dayOfEra := (shifted - era * 146097).toNat
  let yearOfEra := (dayOfEra - dayOfEra / 1460 + dayOfEra / 36524 - dayOfEra / 146096) / 365
  let dayOfYear := dayOfEra - (365 * yearOfEra + yearOfEra / 4 - yearOfEra / 100)
  let monthFromMarch := (5 * dayOfYear + 2) / 153
  let day := dayOfYear - (153 * monthFromMarch + 2) / 5 + 1
  let month := if monthFromMarch < 10 then monthFromMarch + 3 else monthFromMarch - 9
  let year := (yearOfEra : Int) + era * 400
  ⟨if month ≤ 2 then year + 1 else year, month, day⟩

/-- A number with at least `width` digits. -/
def padded (width n : Nat) : List Char :=
  let digits := Numeral.digitsOf n
  List.replicate (width - digits.length) '0' ++ digits

/-- A year with its sign where it needs one. -/
def yearText (year : Int) : List Char :=
  if 0 ≤ year ∧ year ≤ 9999 then padded 4 year.toNat
  else (if year < 0 then '-' else '+') :: padded 4 year.natAbs

/-- A fraction of a second. -/
def fractionText (nanoseconds : Nat) : List Char :=
  if nanoseconds = 0 then []
  else if nanoseconds % 1000000 = 0 then '.' :: padded 3 (nanoseconds / 1000000)
  else if nanoseconds % 1000 = 0 then '.' :: padded 6 (nanoseconds / 1000)
  else '.' :: padded 9 nanoseconds

/-- The text of a point in time. A second and more of nanoseconds, in the last second of a minute, is
a leap second. -/
def text (t : UtcTime) : String :=
  let day := Int.fdiv t.seconds 86400
  let second := (t.seconds - day * 86400).toNat
  let date := dateOf day
  let leap := t.nanoseconds / 1000000000
  String.ofList (yearText date.year ++ '-' :: padded 2 date.month ++ '-' :: padded 2 date.day ++
    'T' :: padded 2 (second / 3600) ++ ':' :: padded 2 (second / 60 % 60) ++
    ':' :: padded 2 (second % 60 + leap) ++ fractionText (t.nanoseconds % 1000000000) ++ ['Z'])

end UtcTime

end MarketMaker
