import MarketMaker.Json.Basic
import MarketMaker.Word

/-!
# The values of JSON numbers

A number's value is found from its first digits: as many as fit an unsigned word are taken as a
whole (`Accumulator`), and the rest is only counted. That whole number, rounded to a double, is then
scaled by a power of ten, with one more rounding. So a value is not always the double nearest
to the number, but short numbers read back what was written. Numbers beyond the largest double have
no value.
-/

namespace MarketMaker.Json

/-- The digits taken so far, and how many powers of ten they stand below the number. -/
structure Accumulator where
  taken : Nat
  shift : Int

namespace Accumulator

/-- Whether a word has room for one more digit. -/
def hasRoom (taken : Nat) (digit : Char) : Bool :=
  taken * 10 + Numeral.natural [digit] < UInt64.size

/-- Takes digits before the point. From the first one without room on they only raise the power of
ten. -/
def takeWhole (a : Accumulator) : List Char → Accumulator
  | [] => a
  | d :: ds =>
    if hasRoom a.taken d then takeWhole ⟨a.taken * 10 + Numeral.natural [d], a.shift⟩ ds
    else ⟨a.taken, a.shift + (ds.length + 1)⟩

/-- Takes digits after the point, up to the first one without room. -/
def takeFraction (a : Accumulator) : List Char → Accumulator
  | [] => a
  | d :: ds =>
    if hasRoom a.taken d then takeFraction ⟨a.taken * 10 + Numeral.natural [d], a.shift - 1⟩ ds
    else a

/-- The digits of a numeral. -/
def ofNumeral (n : Numeral) : Accumulator :=
  (takeWhole ⟨0, 0⟩ n.whole).takeFraction n.fraction

end Accumulator

/-- The largest power of ten that is used at once. -/
def powerLimit : Nat := 308

/-- The double nearest to `10 ^ n`. -/
def power (n : Nat) : Float :=
  Float.ofScientific 1 false n

/-- Divides by `10 ^ n`, by the largest power as long as `n` is beyond it. -/
def scaleDown (x : Float) (n : Nat) : Float :=
  if n ≤ powerLimit then x / power n
  else if x == 0.0 then x
  else scaleDown (x / power powerLimit) (n - powerLimit)
termination_by n
decreasing_by simp only [powerLimit] at *; omega

/-- Scales by a power of ten. There is no result beyond the largest double. -/
def scale? (x : Float) (exponent : Int) : Option Float :=
  if exponent < 0 then some (scaleDown x exponent.natAbs)
  else if exponent.toNat ≤ powerLimit then
    let y := x * power exponent.toNat
    if y.isInf then none else some y
  else if x == 0.0 then some x
  else none

/-- The largest exponent that is told from larger ones. -/
def exponentLimit : Nat := 2147483647

/-- The magnitude of a numeral: an exponent beyond the limit leaves zero or no value. -/
def magnitude? (n : Numeral) : Option Float :=
  let a := Accumulator.ofNumeral n
  let x := a.taken.toUInt64.toFloat
  match n.exponent with
  | none => scale? x a.shift
  | some e =>
    if Numeral.natural e.digits ≤ exponentLimit then scale? x (a.shift + e.value)
    else if e.negative || a.taken == 0 then some 0.0
    else none

/-- The double that a numeral is read as. -/
def float? (n : Numeral) : Option Float :=
  (magnitude? n).map (Numeral.signed n.negative)

/-- Whether a numeral has neither point nor exponent. -/
def isWhole (n : Numeral) : Bool :=
  n.fraction.isEmpty && n.exponent.isNone

/-- The unsigned word that a numeral is read as. -/
def word? (n : Numeral) : Option UInt64 :=
  if isWhole n && !n.negative then Word.ofNat? (Numeral.natural n.whole) else none

/-- The signed word that a numeral is read as. A minus sign before zero makes no whole number. -/
def signed? (n : Numeral) : Option Int64 :=
  let value := Numeral.natural n.whole
  if !isWhole n then none
  else if !n.negative then Word.ofInt? value
  else if value = 0 then none
  else Word.ofInt? (-value)

end MarketMaker.Json
