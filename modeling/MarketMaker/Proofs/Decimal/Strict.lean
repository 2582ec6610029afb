import MarketMaker.Proofs.Decimal.RoundTrip

/-!
# Numerals of the strict grammar

A numeral of the strict grammar is read back from its text in front of whatever does not go on with it
(`Numeral.IsStrict.scan?_text`). Whole numbers are strict, and so is what any layout makes of a decimal
(`Layout.isStrict_numeral`): its first digit is no zero, unless it is all there is before the point.
-/

namespace MarketMaker

namespace Numeral

/-- What the strict grammar asks of the parts of a numeral. -/
structure IsStrict (n : Numeral) : Prop where
  nonempty : n.whole ≠ []
  noZero : n.whole.head? = some '0' → n.whole = ['0']
  whole : ∀ c ∈ n.whole, c.isDigit
  fraction : ∀ c ∈ n.fraction, c.isDigit
  exponent : ∀ e ∈ n.exponent, e.digits ≠ [] ∧ ∀ c ∈ e.digits, c.isDigit

/-- A text does not go on with a number. -/
def Ends (rest : List Char) : Prop :=
  ∀ c ∈ rest.head?, c.isDigit = false ∧ c ≠ '.' ∧ c ≠ 'e' ∧ c ≠ 'E'

variable {n : Numeral} {rest : List Char}

/-! ## Reading parts -/

theorem takeWhile_of_head? (stop : ∀ c ∈ rest.head?, c.isDigit = false) :
    rest.takeWhile Char.isDigit = [] := by
  cases rest with
  | nil => rfl
  | cons c cs => simp [stop c rfl]

theorem someDigits?_append {digits : List Char} (nonempty : digits ≠ [])
    (row : ∀ c ∈ digits, c.isDigit) (stop : ∀ c ∈ rest.head?, c.isDigit = false) :
    someDigits? (digits ++ rest) = some (digits, rest) := by
  unfold someDigits?
  rw [digitRun_append row (takeWhile_of_head? stop)]
  cases digits with
  | nil => exact absurd rfl nonempty
  | cons => rfl

theorem wholePart?_append {digits : List Char} (nonempty : digits ≠ [])
    (noZero : digits.head? = some '0' → digits = ['0']) (row : ∀ c ∈ digits, c.isDigit)
    (stop : ∀ c ∈ rest.head?, c.isDigit = false) :
    wholePart? (digits ++ rest) = some (digits, rest) := by
  obtain ⟨c, cs, rfl⟩ := List.exists_cons_of_ne_nil nonempty
  by_cases zero : c = '0'
  · subst zero
    rw [noZero rfl]
    rfl
  · have some := someDigits?_append nonempty row stop
    rw [List.cons_append] at some ⊢
    unfold wholePart?
    split
    next other => exact absurd (List.cons.inj other).1 zero
    next => exact some

/-- What is written of a fraction. -/
def fractionText (fraction : List Char) : List Char :=
  if fraction.isEmpty then [] else '.' :: fraction

theorem fractionPart?_append {fraction : List Char} (row : ∀ c ∈ fraction, c.isDigit)
    (stop : ∀ c ∈ rest.head?, c.isDigit = false ∧ c ≠ '.') :
    fractionPart? (fractionText fraction ++ rest) = some (fraction, rest) := by
  cases fraction with
  | nil =>
    change fractionPart? rest = some ([], rest)
    unfold fractionPart?
    split
    next cs => exact absurd rfl (stop '.' rfl).2
    next => rfl
  | cons c cs => exact someDigits?_append (List.cons_ne_nil c cs) row fun d head => (stop d head).1

theorem exponentPart?_append {exponent : Option Exponent}
    (row : ∀ e ∈ exponent, e.digits ≠ [] ∧ ∀ c ∈ e.digits, c.isDigit) (stop : Ends rest) :
    exponentPart? (exponent.elim [] Exponent.text ++ rest) = some (exponent, rest) := by
  cases exponent with
  | none =>
    change exponentPart? rest = some (none, rest)
    unfold exponentPart?
    split
    next cs => exact absurd rfl (stop 'e' rfl).2.2.1
    next cs => exact absurd rfl (stop 'E' rfl).2.2.2
    next => rfl
  | some e =>
    obtain ⟨negative, digits⟩ := e
    obtain ⟨nonempty, all⟩ := row _ rfl
    have digits := someDigits?_append nonempty all fun c head => (stop c head).1
    cases negative with
    | true => exact congrArg (Option.map _) digits
    | false => exact congrArg (Option.map _) digits

/-! ## Reading numerals -/

/-- What is written behind the whole part does not go on with its digits. -/
theorem head?_fractionText_append {fraction : List Char}
    (stop : ∀ c ∈ rest.head?, c.isDigit = false) :
    ∀ c ∈ (fractionText fraction ++ rest).head?, c.isDigit = false := by
  cases fraction with
  | nil => exact stop
  | cons c cs =>
    intro d head
    obtain rfl := Option.some.inj head
    decide

/-- What is written behind the fraction does not go on with its digits. -/
theorem head?_exponent_append {exponent : Option Exponent} (stop : Ends rest) :
    ∀ c ∈ (exponent.elim [] Exponent.text ++ rest).head?, c.isDigit = false ∧ c ≠ '.' := by
  cases exponent with
  | none => exact fun c head => ⟨(stop c head).1, (stop c head).2.1⟩
  | some e =>
    intro c head
    obtain rfl := Option.some.inj head
    decide

theorem minus_of_isDigit {c : Char} (digit : c.isDigit) (cs : List Char) :
    minus (c :: cs) = (false, c :: cs) := by
  unfold minus
  split
  next minus =>
    obtain ⟨rfl, -⟩ := List.cons.inj minus
    exact absurd digit (by decide)
  next => rfl

/-- **A strict numeral is read back** from its text, up to where the text goes on with something else. -/
theorem IsStrict.scan?_text (h : n.IsStrict) (stop : Ends rest) :
    scan? (n.text ++ rest) = some (n, rest) := by
  obtain ⟨negative, whole, fraction, exponent⟩ := n
  have afterFraction : ∀ c ∈ (exponent.elim [] Exponent.text ++ rest).head?,
      c.isDigit = false ∧ c ≠ '.' := head?_exponent_append stop
  have afterWhole : ∀ c ∈ (fractionText fraction ++ (exponent.elim [] Exponent.text ++ rest)).head?,
      c.isDigit = false := head?_fractionText_append fun c head => (afterFraction c head).1
  have body : minus ((if negative then ['-'] else []) ++ (whole ++ (fractionText fraction ++
      (exponent.elim [] Exponent.text ++ rest)))) =
      (negative, whole ++ (fractionText fraction ++ (exponent.elim [] Exponent.text ++ rest))) := by
    cases negative with
    | true => rfl
    | false =>
      obtain ⟨c, cs, rfl⟩ := List.exists_cons_of_ne_nil h.nonempty
      exact minus_of_isDigit (h.whole c List.mem_cons_self) _
  change scan? ((if negative then ['-'] else []) ++ whole ++ fractionText fraction ++
    exponent.elim [] Exponent.text ++ rest) = _
  simp only [List.append_assoc]
  unfold scan?
  rw [body]
  simp only [wholePart?_append h.nonempty h.noZero h.whole afterWhole,
    fractionPart?_append h.fraction afterFraction, exponentPart?_append h.exponent stop,
    Option.bind_eq_bind, Option.bind_some]
  rfl

/-! ## What is strict -/

theorem head?_digitsOf {n : ℕ} (positive : 0 < n) : (digitsOf n).head? ≠ some '0' := by
  induction n using Nat.strongRecOn with
  | ind n ih =>
    rw [digitsOf, Nat.toDigits_eq_if (by decide)]
    split
    next one =>
      interval_cases n <;> decide
    next more =>
      rw [List.head?_append_of_ne_nil _ Nat.toDigits_ne_nil]
      exact ih (n / 10) (by omega) (by omega)

theorem noZero_digitsOf (n : ℕ) (zero : (digitsOf n).head? = some '0') : digitsOf n = ['0'] := by
  rcases n.eq_zero_or_pos with rfl | positive
  · rfl
  · exact absurd zero (head?_digitsOf positive)

theorem isStrict_ofNat (n : ℕ) : (ofNat n).IsStrict :=
  ⟨digitsOf_ne_nil n, noZero_digitsOf n, fun _ => isDigit_digitsOf, by simp [ofNat], by simp [ofNat]⟩

theorem isStrict_ofInt (n : ℤ) : (ofInt n).IsStrict :=
  ⟨digitsOf_ne_nil _, noZero_digitsOf _, fun _ => isDigit_digitsOf, by simp [ofInt], by simp [ofInt]⟩

end Numeral

/-- A decimal whose digits begin with a zero is zero. -/
theorem Decimal.noZero_digits {d : Decimal} (zero : d.digits.head? = some '0') :
    d.digits = ['0'] ∧ d.lead = 0 := by
  rcases d.significand.eq_zero_or_pos with none | positive
  · rw [lead, if_pos none, digits, none]
    exact ⟨rfl, rfl⟩
  · obtain ⟨k, whole⟩ := d.digits_append_replicate
    have head := Numeral.head?_digitsOf positive
    rw [← whole, List.head?_append_of_ne_nil _ d.digits_ne_nil] at head
    exact absurd zero head

namespace Layout

open Numeral

variable (l : Layout) (negative : Bool) {digits : List Char} {lead : ℤ}

theorem isStrict_position (nonempty : digits ≠ []) (row : ∀ c ∈ digits, c.isDigit)
    (noZero : digits.head? = some '0' → digits = ['0'] ∧ lead = 0) :
    (l.position negative digits lead).IsStrict := by
  obtain ⟨some, whole, fraction, exponent⟩ := l.isPlain_position negative lead nonempty row
  refine ⟨some, ?_, whole, fraction, by simp [exponent]⟩
  unfold position
  simp only
  split_ifs with small whole point
  · exact fun _ => rfl
  · intro zero
    rw [List.head?_append_of_ne_nil _ nonempty] at zero
    obtain ⟨rfl, rfl⟩ := noZero zero
    rfl
  · intro zero
    rw [List.head?_append_of_ne_nil _ nonempty] at zero
    obtain ⟨rfl, rfl⟩ := noZero zero
    rfl
  · intro zero
    rw [List.head?_take, if_neg (by omega)] at zero
    obtain ⟨rfl, rfl⟩ := noZero zero
    exact absurd (by decide) whole

theorem isStrict_scientific (nonempty : digits ≠ []) (row : ∀ c ∈ digits, c.isDigit)
    (noZero : digits.head? = some '0' → digits = ['0'] ∧ lead = 0) :
    (scientific negative digits lead).IsStrict := by
  refine ⟨by simp [scientific, nonempty], ?_, fun c member => row c (List.mem_of_mem_take member),
    fun c member => row c (List.mem_of_mem_drop member), ?_⟩
  · intro zero
    change (digits.take 1).head? = _ at zero
    rw [List.head?_take, if_neg one_ne_zero] at zero
    obtain ⟨rfl, rfl⟩ := noZero zero
    rfl
  · intro e same
    obtain rfl := Option.some.inj same
    exact ⟨digitsOf_ne_nil _, fun _ => isDigit_digitsOf⟩

/-- What a layout makes of a decimal is strict. -/
theorem isStrict_numeral (d : Decimal) : (l.numeral negative d).IsStrict := by
  unfold numeral
  split
  · exact isStrict_position l negative d.digits_ne_nil (fun _ => Decimal.isDigit_digits)
      Decimal.noZero_digits
  · exact isStrict_scientific negative d.digits_ne_nil (fun _ => Decimal.isDigit_digits)
      Decimal.noZero_digits

theorem isStrict_shortest (x : Float) : (l.shortest x).IsStrict := by
  obtain ⟨d, shortest, -⟩ := l.shortest_cases x
  rw [shortest]
  exact isStrict_numeral l _ d

end Layout

end MarketMaker
