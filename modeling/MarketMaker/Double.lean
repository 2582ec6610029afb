/-!
# Doubles

The few operations on doubles that a market needs beside arithmetic: the larger and the smaller of
two, where one that is no number gives way to the other and of two equal ones the second is taken, as
shows where they are zeros of different signs, and the double nearest to a signed word.
-/

namespace MarketMaker.Double

/-- The larger of two, or the one that is a number; the second, if they are equal. -/
def larger (x y : Float) : Float :=
  if y < x || y.isNaN then x else y

/-- The smaller of two, or the one that is a number; the second, if they are equal. -/
def smaller (x y : Float) : Float :=
  if x < y || y.isNaN then x else y

/-- The double nearest to a signed word. The magnitude is that of the negated word, which as an
unsigned word is right also for the least one. -/
def ofSigned (n : Int64) : Float :=
  if n < 0 then -(-n).toUInt64.toFloat else n.toUInt64.toFloat

/-- The double nearest to a count. -/
def ofCount (n : Nat) : Float :=
  n.toUInt64.toFloat

end MarketMaker.Double
