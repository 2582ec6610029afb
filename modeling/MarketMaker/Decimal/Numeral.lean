/-!
# Decimal numerals

A numeral is a decimal number as it is written: a sign, the digits before the point, the digits
after it, and an exponent of ten. Writing (`text`) and reading (`scan?`, `ofLooseText?`) meet in
this type, so a number's text and a number's value are two separate questions: this module holds the
text, and the one value on which all readers agree, the double nearest to the numeral
(`toFloat`).
-/

namespace MarketMaker

/-- A power of ten as it is written after the digits. -/
structure Numeral.Exponent where
  negative : Bool
  digits : List Char
deriving DecidableEq, Repr

/-- A written decimal number. -/
structure Numeral where
  negative : Bool
  whole : List Char
  fraction : List Char
  exponent : Option Numeral.Exponent
deriving DecidableEq, Repr

namespace Numeral

/-- The natural number that a row of digits stands for. -/
def natural (digits : List Char) : Nat :=
  Nat.ofDigitChars 10 digits 0

/-- The digits of a natural number, without leading zeros. -/
def digitsOf (n : Nat) : List Char :=
  Nat.toDigits 10 n

theorem natural_digitsOf (n : Nat) : natural (digitsOf n) = n :=
  Nat.ofDigitChars_toDigits (by decide) (by decide)

/-- The integer that an exponent stands for. -/
def Exponent.value (e : Exponent) : Int :=
  if e.negative then -(natural e.digits : Int) else (natural e.digits : Int)

/-- The exponent that stands for an integer. -/
def Exponent.ofInt (e : Int) : Exponent :=
  ⟨decide (e < 0), digitsOf e.natAbs⟩

/-- All digits of a numeral as one natural number. -/
def significand (n : Numeral) : Nat :=
  natural (n.whole ++ n.fraction)

/-- The power of ten that scales the significand. -/
def scale (n : Numeral) : Int :=
  (n.exponent.elim 0 Exponent.value) - n.fraction.length

/-- `x` or, for a negative numeral, `-x`; a negative zero keeps its sign. -/
def signed (negative : Bool) (x : Float) : Float :=
  if negative then -x else x

/-- The double nearest to a numeral, a tie going to the even significand. -/
def toFloat (n : Numeral) : Float :=
  signed n.negative (Float.ofScientific n.significand (decide (n.scale < 0)) n.scale.natAbs)

/-! ## Writing -/

/-- An exponent always shows its sign. -/
def Exponent.text (e : Exponent) : List Char :=
  'e' :: (if e.negative then '-' else '+') :: e.digits

/-- The text of a numeral. -/
def text (n : Numeral) : List Char :=
  (if n.negative then ['-'] else []) ++ n.whole ++
    (if n.fraction.isEmpty then [] else '.' :: n.fraction) ++
    n.exponent.elim [] Exponent.text

/-- A natural number as a numeral. -/
def ofNat (n : Nat) : Numeral :=
  ⟨false, digitsOf n, [], none⟩

/-- An integer as a numeral. -/
def ofInt (n : Int) : Numeral :=
  ⟨decide (n < 0), digitsOf n.natAbs, [], none⟩

/-! ## Reading the strict grammar

The strict grammar has a whole part of `0` or of digits that do not start with `0`, and at least
one digit after a point or an exponent mark. -/

/-- The digits at the start of a text, and what follows them. -/
def digitRun (cs : List Char) : List Char × List Char :=
  (cs.takeWhile Char.isDigit, cs.dropWhile Char.isDigit)

/-- A digit run that holds at least one digit. -/
def someDigits? (cs : List Char) : Option (List Char × List Char) :=
  match digitRun cs with
  | ([], _) => none
  | run => some run

/-- Takes a minus sign off the front. -/
def minus : List Char → Bool × List Char
  | '-' :: cs => (true, cs)
  | cs => (false, cs)

/-- Takes a minus or a plus sign off the front. -/
def sign : List Char → Bool × List Char
  | '-' :: cs => (true, cs)
  | '+' :: cs => (false, cs)
  | cs => (false, cs)

/-- The whole part: a single zero, or digits that start with another digit. -/
def wholePart? : List Char → Option (List Char × List Char)
  | '0' :: cs => some (['0'], cs)
  | cs => someDigits? cs

/-- The fraction, if a point starts one. -/
def fractionPart? : List Char → Option (List Char × List Char)
  | '.' :: cs => someDigits? cs
  | cs => some ([], cs)

/-- The exponent, if an exponent mark starts one. -/
def exponentPart? : List Char → Option (Option Exponent × List Char)
  | 'e' :: cs | 'E' :: cs =>
    (someDigits? (sign cs).2).map fun (digits, rest) => (some ⟨(sign cs).1, digits⟩, rest)
  | cs => some (none, cs)

/-- Reads a numeral of the strict grammar off the front of a text. -/
def scan? (cs : List Char) : Option (Numeral × List Char) := do
  let (whole, cs') ← wholePart? (minus cs).2
  let (fraction, cs'') ← fractionPart? cs'
  let (exponent, rest) ← exponentPart? cs''
  return (⟨(minus cs).1, whole, fraction, exponent⟩, rest)

/-! Each reader leaves a shorter text, so whoever reads numeral after numeral comes to an end. -/

theorem length_of_someDigits? {cs digits rest : List Char}
    (h : someDigits? cs = some (digits, rest)) : rest.length < cs.length := by
  have sum : (cs.takeWhile Char.isDigit).length + (cs.dropWhile Char.isDigit).length = cs.length := by
    rw [← List.length_append, List.takeWhile_append_dropWhile]
  unfold someDigits? digitRun at h
  split at h
  · simp at h
  next hne =>
    simp only [Option.some.injEq, Prod.mk.injEq] at h
    obtain ⟨-, rfl⟩ := h
    cases hd : cs.takeWhile Char.isDigit with
    | nil => exact absurd (by rw [hd]) (hne (cs.dropWhile Char.isDigit))
    | cons d ds => rw [hd] at sum; simp only [List.length_cons] at sum; omega

theorem length_minus (cs : List Char) : (minus cs).2.length ≤ cs.length := by
  unfold minus
  split <;> simp

theorem length_sign (cs : List Char) : (sign cs).2.length ≤ cs.length := by
  unfold sign
  split <;> simp

theorem length_of_wholePart? {cs whole rest : List Char}
    (h : wholePart? cs = some (whole, rest)) : rest.length < cs.length := by
  unfold wholePart? at h
  split at h
  · simp only [Option.some.injEq, Prod.mk.injEq] at h
    simp [← h.2]
  · exact length_of_someDigits? h

theorem length_of_fractionPart? {cs fraction rest : List Char}
    (h : fractionPart? cs = some (fraction, rest)) : rest.length ≤ cs.length := by
  unfold fractionPart? at h
  split at h
  · have := length_of_someDigits? h
    simp only [List.length_cons]
    omega
  · simp only [Option.some.injEq, Prod.mk.injEq] at h
    simp [← h.2]

theorem length_of_exponentPart? {cs rest : List Char} {e : Option Exponent}
    (h : exponentPart? cs = some (e, rest)) : rest.length ≤ cs.length := by
  have mark {cs : List Char}
      (h : ((someDigits? (sign cs).2).map fun (digits, rest) =>
        (some (⟨(sign cs).1, digits⟩ : Exponent), rest)) = some (e, rest)) :
      rest.length ≤ cs.length := by
    obtain ⟨⟨digits, rest'⟩, hd, hr⟩ := Option.map_eq_some_iff.1 h
    simp only [Prod.mk.injEq] at hr
    obtain ⟨-, rfl⟩ := hr
    have := length_of_someDigits? hd
    have := length_sign cs
    omega
  unfold exponentPart? at h
  split at h
  · exact Nat.le_succ_of_le (mark h)
  · exact Nat.le_succ_of_le (mark h)
  · simp only [Option.some.injEq, Prod.mk.injEq] at h
    simp [← h.2]

theorem length_of_scan? {cs rest : List Char} {n : Numeral} (h : scan? cs = some (n, rest)) :
    rest.length < cs.length := by
  unfold scan? at h
  obtain ⟨⟨whole, cs'⟩, hw, h⟩ := Option.bind_eq_some_iff.1 h
  obtain ⟨⟨fraction, cs''⟩, hf, h⟩ := Option.bind_eq_some_iff.1 h
  obtain ⟨⟨exponent, rest'⟩, he, h⟩ := Option.bind_eq_some_iff.1 h
  simp only [Option.pure_def, Option.some.injEq, Prod.mk.injEq] at h
  obtain ⟨-, rfl⟩ := h
  have := length_minus cs
  have := length_of_wholePart? hw
  have := length_of_fractionPart? hf
  have := length_of_exponentPart? he
  omega

/-! ## Reading the loose grammar

The loose grammar also takes a plus sign, leading zeros, and a point with digits on one side
only. -/

/-- The digits after a point, which may be none; without a point there are none. -/
def looseFraction : List Char → List Char × List Char
  | '.' :: cs => digitRun cs
  | cs => ([], cs)

/-- Reads a whole text as a numeral of the loose grammar. -/
def ofLooseText? (cs : List Char) : Option Numeral :=
  let (negative, cs) := sign cs
  let (whole, cs) := digitRun cs
  let (fraction, cs) := looseFraction cs
  if whole.isEmpty && fraction.isEmpty then none
  else match exponentPart? cs with
    | some (exponent, []) => some ⟨negative, whole, fraction, exponent⟩
    | _ => none

end Numeral

end MarketMaker
