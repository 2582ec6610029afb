import MarketMaker.Decimal.Numeral

/-!
# The shortest numeral of a double

Every finite double is exactly a decimal number, though a long one. Writing it means cutting that
decimal to the fewest digits that still read back as the same double. `Layout.shortest` tries one
digit, two digits, and so on; at each count it offers the two neighbours of the exact value, the
nearer one first, and keeps the first that reads back. Once some count of digits is enough, so is every
larger one, which saves most of the trials: few doubles can do with fifteen digits. A layout says how
digits are set out, and which of two equally near neighbours comes first.
-/

namespace MarketMaker

/-- Which of two equally near decimals is preferred. -/
inductive Tie where
  /-- The one whose last digit is even. -/
  | even
  /-- The one of larger magnitude. -/
  | up
deriving DecidableEq, Repr

/-- A decimal number: `significand * 10 ^ scale`. -/
structure Decimal where
  significand : Nat
  scale : Int
deriving DecidableEq, Repr

namespace Decimal

/-- The significand and the power of two of a finite double's magnitude. -/
def binary (x : Float) : Nat × Int :=
  let bits := x.toBits
  let exponent := ((bits >>> 52) &&& 0x7FF).toNat
  let fraction := (bits &&& 0xFFFFFFFFFFFFF).toNat
  if exponent = 0 then (fraction, -1074)
  else (0x10000000000000 + fraction, (exponent : Int) - 1075)

/-- Whether the sign bit is set. -/
def isNegative (x : Float) : Bool :=
  x.toBits >>> 63 != 0

/-- The exact magnitude of a finite double: a power of two is a power of ten over a power of
five. -/
def exact (x : Float) : Decimal :=
  let (m, q) := binary x
  if 0 ≤ q then ⟨m <<< q.toNat, 0⟩ else ⟨m * Nat.pow 5 (-q).toNat, q⟩

/-- The double nearest to a decimal. -/
def toFloat (d : Decimal) : Float :=
  Float.ofScientific d.significand (decide (d.scale < 0)) d.scale.natAbs

/-- The number of digits of a natural number. A power of two has about `78913 / 262144` times as many
digits as bits, and that estimate is short by at most one. -/
def countDigits (n : Nat) : Nat :=
  let estimate := (n.log2 * 78913) >>> 18 + 1
  if n < Nat.pow 10 estimate then estimate else estimate + 1

/-- The two neighbours of a decimal with at most `n` digits, the preferred one first. -/
def neighbours (tie : Tie) (d : Decimal) (n : Nat) : List Decimal :=
  let cut := countDigits d.significand - n
  let unit := Nat.pow 10 cut
  let below : Decimal := ⟨d.significand / unit, d.scale + cut⟩
  let above : Decimal := ⟨below.significand + 1, below.scale⟩
  let belowFirst := match compare (2 * (d.significand % unit)) unit, tie with
    | .lt, _ => true
    | .gt, _ => false
    | .eq, .even => below.significand % 2 == 0
    | .eq, .up => false
  if belowFirst then [below, above] else [above, below]

/-- The digits of a decimal without the zeros at the end, which carry no value. -/
def digits (d : Decimal) : List Char :=
  match ((Numeral.digitsOf d.significand).reverse.dropWhile (· == '0')).reverse with
  | [] => ['0']
  | digits => digits

/-- The power of ten that the first digit stands for. -/
def lead (d : Decimal) : Int :=
  if d.significand = 0 then 0 else d.scale + countDigits d.significand - 1

end Decimal

/-- How the digits of a number are set out. -/
structure Layout where
  /-- Whether a number whose first digit stands for `10 ^ lead` is written without an exponent. -/
  positional : Int → Bool
  /-- Whether a whole number without an exponent ends in `.0`. -/
  wholePoint : Bool
  /-- The preferred one of two equally near numerals. -/
  tie : Tie

namespace Layout

/-- Sets out the digits around the point. -/
def position (l : Layout) (negative : Bool) (digits : List Char) (lead : Int) : Numeral :=
  let point := lead + 1
  if point ≤ 0 then
    ⟨negative, ['0'], List.replicate (-point).toNat '0' ++ digits, none⟩
  else if digits.length ≤ point.toNat then
    ⟨negative, digits ++ List.replicate (point.toNat - digits.length) '0',
      if l.wholePoint then ['0'] else [], none⟩
  else
    ⟨negative, digits.take point.toNat, digits.drop point.toNat, none⟩

/-- Sets out one digit before the point and an exponent after the rest. -/
def scientific (negative : Bool) (digits : List Char) (lead : Int) : Numeral :=
  ⟨negative, digits.take 1, digits.drop 1, some (.ofInt lead)⟩

/-- The numeral of a decimal in this layout. -/
def numeral (l : Layout) (negative : Bool) (d : Decimal) : Numeral :=
  if l.positional d.lead then l.position negative d.digits d.lead
  else scientific negative d.digits d.lead

/-- Whether a numeral reads back as the double `x`, sign of zero included. -/
def readsBack (x : Float) (n : Numeral) : Bool :=
  n.toFloat.toBits == x.toBits

/-- The numeral of a decimal that reads back as the double `x`. A decimal that is not nearest to the
magnitude of `x` is not set out at all. -/
def fitting? (l : Layout) (x : Float) (d : Decimal) : Option Numeral :=
  if d.toFloat.toBits == x.abs.toBits then
    (some (l.numeral (Decimal.isNegative x) d)).filter (readsBack x)
  else none

/-- The numeral with at most `n` digits that reads back as a finite double, if there is one. -/
def cut? (l : Layout) (x : Float) (n : Nat) : Option Numeral :=
  ((Decimal.exact x).neighbours l.tie n).findSome? (l.fitting? x)

/-- The counts of digits to try: those up to fifteen only if fifteen are enough. -/
def counts (fifteenFit : Bool) : List Nat :=
  (if fifteenFit then List.range' 1 15 else []) ++ [16, 17]

/-- The shortest numeral that reads back as a finite double: seventeen digits are always enough,
and should no count up to there do, the exact value is written. -/
def shortest (l : Layout) (x : Float) : Numeral :=
  ((counts (l.cut? x 15).isSome).findSome? (l.cut? x)).getD
    (l.numeral (Decimal.isNegative x) (Decimal.exact x))

end Layout

end MarketMaker
