import MarketMaker.Decimal.Shortest
import MarketMaker.Word

/-!
# Plain numbers

The text of a number in messages and in cached fields: no exponent ever, no `.0` on a whole number,
and words for what is no number. `Plain.float?` reads such texts back and takes more besides: an
exponent, a plus sign, leading zeros, and the words in any case.
-/

namespace MarketMaker.Plain

/-- Plain numbers never use an exponent and have no point when whole; of two equally near ones the
larger is written. -/
def layout : Layout where
  positional _ := true
  wholePoint := false
  tie := .up

/-- The text of a double. -/
def ofFloat (x : Float) : String :=
  if x.isNaN then "NaN"
  else if x.isInf then (if Decimal.isNegative x then "-inf" else "inf")
  else String.ofList (layout.shortest x).text

/-- The text of an unsigned word. -/
def ofWord (n : UInt64) : String :=
  String.ofList (Numeral.digitsOf n.toNat)

/-- The text of a signed word. -/
def ofSigned (n : Int64) : String :=
  String.ofList (Numeral.ofInt n.toInt).text

/-! ## Reading -/

/-- The words for what is no finite number, in small letters. -/
def word? (cs : List Char) : Option Float :=
  if cs = "inf".toList ∨ cs = "infinity".toList then some (1.0 / 0.0)
  else if cs = "nan".toList then some (0.0 / 0.0)
  else none

/-- Reads a double, correctly rounded: a word with an optional sign, or a loose numeral. -/
def float? (s : String) : Option Float :=
  let (negative, cs) := Numeral.sign s.toList
  match word? (cs.map Char.toLower) with
  | some x => some (Numeral.signed negative x)
  | none => (Numeral.ofLooseText? s.toList).map Numeral.toFloat

/-- Reads a row of at least one digit. -/
def natural? (cs : List Char) : Option Nat :=
  if cs.isEmpty || !cs.all Char.isDigit then none else some (Numeral.natural cs)

/-- Reads an unsigned word: digits after an optional plus sign, in range. -/
def word64? (s : String) : Option UInt64 :=
  let digits := match s.toList with
    | '+' :: cs => cs
    | cs => cs
  (natural? digits).bind Word.ofNat?

/-- Reads a signed word: digits after an optional sign, in range. -/
def signed64? (s : String) : Option Int64 :=
  let (negative, digits) := Numeral.sign s.toList
  (natural? digits).bind fun n => Word.ofInt? (if negative then -(n : Int) else n)

end MarketMaker.Plain
