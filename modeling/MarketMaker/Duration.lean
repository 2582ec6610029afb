import MarketMaker.Decimal.Shortest

/-!
# Durations

A span of time in whole nanoseconds. Seconds as a double are the whole seconds plus the rest over
a thousand million, each of the three operations rounded once. A double as seconds is rounded once, to
the nearest nanosecond.
-/

namespace MarketMaker

/-- A span of time. -/
structure Duration where
  nanoseconds : Nat
deriving DecidableEq, Repr

namespace Duration

/-- Nanoseconds in a second. -/
def perSecond : Nat := 1000000000

/-- No time at all. -/
def zero : Duration := ⟨0⟩

/-- The duration of some seconds and some nanoseconds more. -/
def ofParts (seconds nanoseconds : Nat) : Duration :=
  ⟨seconds * perSecond + nanoseconds⟩

/-- The duration of whole seconds. -/
def ofSeconds (seconds : UInt64) : Duration :=
  ofParts seconds.toNat 0

/-- Whole seconds. -/
def seconds (d : Duration) : Nat :=
  d.nanoseconds / perSecond

/-- Nanoseconds past the whole seconds. -/
def rest (d : Duration) : Nat :=
  d.nanoseconds % perSecond

/-- Whole milliseconds. -/
def milliseconds (d : Duration) : Nat :=
  d.nanoseconds / 1000000

/-- One duration after another. -/
def add (a b : Duration) : Duration :=
  ⟨a.nanoseconds + b.nanoseconds⟩

instance : Add Duration := ⟨add⟩

/-- The time from `earlier` to `later`, zero if it would run backwards. -/
def between (earlier later : Duration) : Duration :=
  ⟨later.nanoseconds - earlier.nanoseconds⟩

/-- Seconds as a double. -/
def toSeconds (d : Duration) : Float :=
  d.seconds.toUInt64.toFloat + d.rest.toUInt64.toFloat / 1e9

/-- A quotient rounded to the nearest whole number, a half to the even one. -/
def nearest (n d : Nat) : Nat :=
  if 2 * (n % d) < d ∨ (2 * (n % d) = d ∧ n / d % 2 = 0) then n / d else n / d + 1

/-- The duration of a number of seconds, to the nearest nanosecond. A duration is not negative and
shorter than `2 ^ 64` seconds. -/
def ofFloat? (seconds : Float) : Option Duration :=
  if !seconds.isFinite || seconds < 0.0 then none
  else
    let (m, q) := Decimal.binary seconds
    let nanoseconds :=
      if 0 ≤ q then (m * perSecond) <<< q.toNat
      else nearest (m * perSecond) (1 <<< (-q).toNat)
    if nanoseconds < UInt64.size * perSecond then some ⟨nanoseconds⟩ else none

/-- The text of a duration of at least one second: the seconds, and as many digits of the
fraction as are not zeros at its end. -/
def text (d : Duration) : String :=
  let nine := Numeral.digitsOf (perSecond + d.rest) |>.drop 1
  let fraction := (nine.reverse.dropWhile (· == '0')).reverse
  String.ofList (Numeral.digitsOf d.seconds ++
    (if fraction.isEmpty then [] else '.' :: fraction) ++ ['s'])

end Duration

end MarketMaker
