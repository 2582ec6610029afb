import MarketMaker.Decimal.Plain
import MarketMaker.Proofs.Decimal.Layout
import MarketMaker.Proofs.Double.Bits

/-!
# Plain numbers read back

What is written of a finite double reads back as that double, the sign of a zero included
(`Plain.float?_ofFloat`), and words read back as well. A numeral without an exponent reads back from
its text as it is; that it stands for the double was either tried before it was written, or it is the
double's exact value.
-/

namespace MarketMaker

open Double

/-! ## Numerals -/

namespace Numeral

variable {n : Numeral}

theorem digitRun_append {cs rest : List Char} (row : ∀ c ∈ cs, c.isDigit)
    (stop : rest.takeWhile Char.isDigit = []) : digitRun (cs ++ rest) = (cs, rest) := by
  have all : rest.dropWhile Char.isDigit = rest := by
    have split := List.takeWhile_append_dropWhile (p := Char.isDigit) (l := rest)
    rwa [stop, List.nil_append] at split
  rw [digitRun, List.takeWhile_append_of_pos row, List.dropWhile_append_of_pos row, stop, all,
    List.append_nil]

/-- What is written of a plain numeral behind its sign. -/
def body (n : Numeral) : List Char :=
  n.whole ++ if n.fraction.isEmpty then [] else '.' :: n.fraction

theorem IsPlain.text_eq (h : n.IsPlain) :
    n.text = (if n.negative then ['-'] else []) ++ n.body := by
  simp [text, body, h.exponent]

theorem IsPlain.body_eq (h : n.IsPlain) : ∃ c cs, n.body = c :: cs ∧ c.isDigit := by
  obtain ⟨c, cs, whole⟩ := List.exists_cons_of_ne_nil h.nonempty
  refine ⟨c, cs ++ if n.fraction.isEmpty then [] else '.' :: n.fraction, ?_,
    h.whole c (whole ▸ List.mem_cons_self)⟩
  rw [body, whole, List.cons_append]

theorem sign_cons {c : Char} (digit : c.isDigit) (cs : List Char) :
    sign (c :: cs) = (false, c :: cs) := by
  unfold sign
  split
  next rest minus =>
    obtain ⟨rfl, _⟩ := List.cons.inj minus
    exact absurd digit (by decide)
  next rest plus =>
    obtain ⟨rfl, _⟩ := List.cons.inj plus
    exact absurd digit (by decide)
  next => rfl

theorem IsPlain.sign_text (h : n.IsPlain) : sign n.text = (n.negative, n.body) := by
  obtain ⟨c, cs, body, digit⟩ := h.body_eq
  rw [h.text_eq]
  cases n.negative with
  | true => rfl
  | false =>
    rw [body]
    exact sign_cons digit cs

/-- A numeral without an exponent reads back from its text. -/
theorem IsPlain.ofLooseText?_text (h : n.IsPlain) : ofLooseText? n.text = some n := by
  have some : n.whole.isEmpty = false := by simp [h.nonempty]
  obtain ⟨negative, whole, fraction, exponent⟩ := n
  obtain rfl : exponent = none := h.exponent
  unfold ofLooseText?
  rw [h.sign_text, body]
  cases fraction with
  | nil =>
    simp only [List.isEmpty_nil, if_true]
    rw [digitRun_append h.whole List.takeWhile_nil]
    simp only [looseFraction, exponentPart?]
    simp [some]
  | cons c cs =>
    simp only [List.isEmpty_cons, Bool.false_eq_true, if_false]
    have all : digitRun (c :: cs ++ []) = (c :: cs, []) :=
      digitRun_append h.fraction List.takeWhile_nil
    rw [List.append_nil] at all
    rw [digitRun_append h.whole (by simp)]
    simp only [looseFraction, all, exponentPart?]
    simp

end Numeral

namespace Plain

open Numeral

theorem toLower_of_isDigit {c : Char} (h : c.isDigit) : c.toLower = c := by
  unfold Char.isDigit at h
  simp only [Bool.and_eq_true, decide_eq_true_eq, UInt32.le_iff_toNat_le, GE.ge] at h
  unfold Char.toLower
  rw [dif_neg]
  simp only [UInt32.le_iff_toNat_le, GE.ge]
  simp at h ⊢
  omega

/-- No word begins with a digit. -/
theorem word?_of_isDigit {c : Char} (h : c.isDigit) (cs : List Char) :
    word? ((c :: cs).map Char.toLower) = none := by
  have letter : c ≠ 'i' ∧ c ≠ 'n' := by
    constructor
    · rintro rfl
      exact absurd h (by decide)
    · rintro rfl
      exact absurd h (by decide)
  rw [List.map_cons, toLower_of_isDigit h, word?, if_neg, if_neg]
  · rw [show "nan".toList = ['n', 'a', 'n'] from rfl]
    simp [letter]
  · rw [show "inf".toList = ['i', 'n', 'f'] from rfl,
      show "infinity".toList = ['i', 'n', 'f', 'i', 'n', 'i', 't', 'y'] from rfl]
    simp [letter]

/-- A numeral without an exponent reads back as the double it stands for. -/
theorem float?_text {n : Numeral} (h : n.IsPlain) :
    float? (String.ofList n.text) = some n.toFloat := by
  obtain ⟨c, cs, body, digit⟩ := h.body_eq
  rw [float?, String.toList_ofList, h.sign_text, body]
  simp only [word?_of_isDigit digit cs, h.ofLooseText?_text, Option.map_some]

end Plain

/-! ## Values -/

/-- A numeral is read as the double that it stands for, if there is one. -/
theorem Numeral.denotes_toFloat {n : Numeral} (small : n.scale.natAbs ≤ 2048) {x : Float} {r : ℝ}
    (value : Denotes x r) (same : r = Double.signed (signOf n.negative) (tens n.significand n.scale)) :
    Denotes n.toFloat r := by
  have magnitude := denotes_ofScientific n.significand small
  unfold toFloat Numeral.signed
  cases sign : n.negative with
  | true =>
    have negated : r = -tens n.significand n.scale := by rw [same, sign]; rfl
    have fits := value.neg.round_eq
    rw [negated, ← EReal.coe_neg, neg_neg] at fits
    rw [fits] at magnitude
    rw [negated]
    exact magnitude.neg
  | false =>
    have plain : r = tens n.significand n.scale := by rw [same, sign]; rfl
    have fits := value.round_eq
    rw [plain] at fits
    rw [fits] at magnitude
    rw [plain]
    exact magnitude

namespace Decimal

variable {x : Float}

/-- The exact value of a double is that of its bits. -/
theorem tens_exact (x : Float) :
    tens (exact x).significand (exact x).scale = quanta (binary x).1 (binary x).2 := by
  unfold exact
  generalize binary x = b
  obtain ⟨m, q⟩ := b
  simp only
  split
  next nonneg =>
    obtain ⟨n, rfl⟩ := Int.eq_ofNat_of_zero_le nonneg
    rw [Nat.shiftLeft_eq]
    simp [tens, quanta]
  next negative =>
    obtain ⟨n, rfl⟩ := Int.exists_eq_neg_ofNat (not_le.1 negative).le
    have ten : (10 : ℝ) = 5 * 2 := by norm_num
    have fives : (5 : ℝ) ^ n * 5 ^ (-(n : ℤ)) = 1 := by
      rw [zpow_neg, zpow_natCast, mul_inv_cancel₀ (by positivity)]
    change ((m * 5 ^ (- -(n : ℤ)).toNat : ℕ) : ℝ) * 10 ^ (-(n : ℤ)) = m * 2 ^ (-(n : ℤ))
    rw [neg_neg, Int.toNat_natCast, ten, mul_zpow]
    push_cast
    rw [mul_assoc, ← mul_assoc (5 ^ n), fives, one_mul]

theorem exact_bounds (x : Float) :
    (exact x).significand.log2 ≤ 10000 ∧ -1074 ≤ (exact x).scale ∧ (exact x).scale ≤ 0 := by
  obtain ⟨digits, least, _⟩ := canonical_binary x
  have most : (binary x).2 ≤ 972 := by
    have exponent : biased x < 2 ^ 11 := Nat.mod_lt _ (by norm_num)
    rw [binary_eq]
    split_ifs
    · simp
    · simp only
      omega
  unfold exact
  generalize binary x = b at digits least most
  obtain ⟨m, q⟩ := b
  have small : ∀ {n k : ℕ}, n < 2 ^ k → k ≤ 10000 → n.log2 ≤ 10000 := by
    intro n k less le
    rcases n.eq_zero_or_pos with rfl | positive
    · decide
    · exact ((Nat.log2_lt positive.ne').2 less).le.trans le
  simp only at digits least most ⊢
  split
  next nonneg =>
    refine ⟨small (k := 53 + q.toNat) ?_ (by omega), by simp, le_rfl⟩
    rw [Nat.shiftLeft_eq, pow_add]
    exact Nat.mul_lt_mul_of_pos_right digits (by positivity)
  next negative =>
    refine ⟨small (k := 53 + 3 * (-q).toNat) ?_ (by omega), least, (not_le.1 negative).le⟩
    change m * 5 ^ (-q).toNat < _
    rw [pow_add, pow_mul]
    exact Nat.mul_lt_mul'' digits (Nat.pow_lt_pow_left (by norm_num) (by omega))

end Decimal

namespace Layout

variable {l : Layout} {x : Float}

theorem isPlain_numeral (positional : ∀ lead, l.positional lead = true) (negative : Bool)
    (d : Decimal) : (l.numeral negative d).IsPlain := by
  rw [numeral, if_pos (positional _)]
  exact isPlain_position l negative d.lead d.digits_ne_nil fun c => Decimal.isDigit_digits

/-- What is written of a double is one of its decimals, which was tried before or is the exact one. -/
theorem shortest_cases (l : Layout) (x : Float) :
    ∃ d, l.shortest x = l.numeral (Decimal.isNegative x) d ∧
      ((l.shortest x).toFloat = x ∨ d = Decimal.exact x) := by
  unfold shortest
  cases tried : (counts (l.cut? x 15).isSome).findSome? (l.cut? x) with
  | none => exact ⟨_, rfl, .inr rfl⟩
  | some n =>
    obtain ⟨k, _, cut⟩ := List.exists_of_findSome?_eq_some tried
    obtain ⟨d, _, fits⟩ := List.exists_of_findSome?_eq_some cut
    unfold fitting? at fits
    split at fits
    · obtain ⟨made, back⟩ := Option.filter_eq_some_iff.1 fits
      obtain rfl := Option.some.inj made
      refine ⟨d, rfl, .inl (eq_of_bits (congrArg UInt64.toBitVec (beq_iff_eq.1 back)))⟩
    · exact absurd fits (by simp)

/-- The exact decimal of a double is set out to a numeral of that double. -/
theorem toFloat_numeral_exact (positional : ∀ lead, l.positional lead = true)
    (finite : x.isFinite = true) (nonzero : (Decimal.binary x).1 ≠ 0) :
    (l.numeral (Decimal.isNegative x) (Decimal.exact x)).toFloat = x := by
  have value := Decimal.tens_exact x
  have size := quanta_pos (Decimal.binary x).2 (Nat.pos_of_ne_zero nonzero)
  obtain ⟨digits, low, high⟩ := Decimal.exact_bounds x
  generalize Decimal.exact x = d at value digits low high
  have positive : 0 < d.significand := by
    rw [← value] at size
    exact Nat.pos_of_ne_zero fun zero => size.ne' (by simp [tens, zero])
  obtain ⟨k, whole, exponent⟩ := Decimal.digits_eq digits positive
  rw [numeral, if_pos (positional _)]
  have kept := l.tens_position (Decimal.isNegative x) d.lead d.digits
  have shift := l.scale_position (Decimal.isNegative x) d.lead d.digits_ne_nil
  rw [exponent, ← tens_mul, ← whole, value] at kept
  rw [exponent] at shift
  have sign := l.negative_position (Decimal.isNegative x) d.lead d.digits
  generalize l.position (Decimal.isNegative x) d.digits d.lead = n at kept shift sign
  have itself := denotes_binary finite
  have read := Numeral.denotes_toFloat (n := n) (by omega) itself (kept ▸ sign ▸ rfl)
  refine eq_of_denotes read itself ?_
  cases Decimal.isNegative x with
  | true => exact neg_ne_zero.2 size.ne'
  | false => exact size.ne'

theorem toFloat_shortest (positional : ∀ lead, l.positional lead = true)
    (finite : x.isFinite = true) (nonzero : (Decimal.binary x).1 ≠ 0) :
    (l.shortest x).toFloat = x := by
  obtain ⟨d, shortest, back | rfl⟩ := l.shortest_cases x
  · exact back
  · rw [shortest]
    exact toFloat_numeral_exact positional finite nonzero

end Layout

/-! ## Doubles and words -/

namespace Plain

open Numeral

variable {x : Float}

/-- **A finite double reads back** from its plain text, the sign of a zero included. -/
theorem float?_ofFloat (finite : x.isFinite = true) : float? (ofFloat x) = some x := by
  by_cases zero : (Decimal.binary x).1 = 0
  · rw [eq_zero_of_binary zero]
    cases Decimal.isNegative x with
    | true => decide +kernel
    | false => decide +kernel
  · obtain ⟨r, value⟩ := isFinite_iff.1 finite
    obtain ⟨d, shortest, _⟩ := layout.shortest_cases x
    have plain : (layout.shortest x).IsPlain := by
      rw [shortest]
      exact Layout.isPlain_numeral (fun _ => rfl) _ d
    unfold ofFloat
    rw [value.isNaN, isInf_of_isFinite finite]
    simp only [Bool.false_eq_true, if_false]
    rw [float?_text plain, Layout.toFloat_shortest (fun _ => rfl) finite zero]

/-- So does an infinite one. -/
theorem float?_ofFloat_of_number (number : x.isNaN = false) : float? (ofFloat x) = some x := by
  rcases isFinite_or_isInf number with finite | infinite
  · exact float?_ofFloat finite
  · rw [eq_infinity infinite]
    cases Decimal.isNegative x with
    | true => decide +kernel
    | false => decide +kernel

theorem natural?_digitsOf (n : ℕ) : natural? (digitsOf n) = some n := by
  have all : (digitsOf n).all Char.isDigit = true := List.all_eq_true.2 fun c => isDigit_digitsOf
  rw [natural?, all, natural_digitsOf]
  simp [digitsOf_ne_nil]

theorem word64?_ofWord (n : UInt64) : word64? (ofWord n) = some n := by
  obtain ⟨c, cs, digits⟩ := List.exists_cons_of_ne_nil (digitsOf_ne_nil n.toNat)
  have digit : c.isDigit := isDigit_digitsOf (digits ▸ List.mem_cons_self)
  have unsigned : c ≠ '+' := by
    rintro rfl
    exact absurd digit (by decide)
  have value := natural?_digitsOf n.toNat
  rw [digits] at value
  unfold word64? ofWord
  rw [String.toList_ofList, digits]
  simp only
  split
  next rest plus =>
    exact absurd (List.cons.inj plus).1 unsigned
  next =>
    rw [value, Option.bind_some, Word.ofNat?, if_pos n.toNat_lt]
    exact congrArg some UInt64.ofNat_toNat

theorem signed64?_ofSigned (n : Int64) : signed64? (ofSigned n) = some n := by
  have plain : (Numeral.ofInt n.toInt).IsPlain :=
    ⟨digitsOf_ne_nil _, fun c => isDigit_digitsOf, by simp [Numeral.ofInt], rfl⟩
  unfold signed64? ofSigned
  rw [String.toList_ofList, plain.sign_text]
  change (natural? (digitsOf n.toInt.natAbs ++ [])).bind
    (fun k => Word.ofInt? (if decide (n.toInt < 0) then -(k : ℤ) else k)) = some n
  rw [List.append_nil, natural?_digitsOf, Option.bind_some]
  have value : (if decide (n.toInt < 0) then -(n.toInt.natAbs : ℤ) else n.toInt.natAbs) =
      n.toInt := by
    split_ifs with negative
    · have less := of_decide_eq_true negative
      omega
    · have more := of_decide_eq_false (Bool.not_eq_true _ ▸ negative)
      omega
  rw [value, Word.ofInt?, if_pos ⟨n.le_toInt, n.toInt_le⟩, Int64.ofInt_toInt]

end Plain

end MarketMaker
