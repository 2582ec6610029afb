import MarketMaker.Proofs.Double.Bits

/-!
# Decimals to doubles

A double that is made of a decimal is the one nearest to it (`denotes_ofScientific`), unless the
power of ten is out of all proportion.
-/

namespace MarketMaker.Double

open Float.Model (Format UnpackedFloat)
open Float.Model.UnpackedFloat (Sign)

/-! ## Powers of ten -/

/-- The powers of ten that doubles hold, checked against their bits. -/
theorem binary_powerOfTen : ∀ i : Fin Float.exactlyRepresentablePowersOfTen.size,
    (Float.exactlyRepresentablePowersOfTen[i]).isFinite = true ∧
    Decimal.isNegative (Float.exactlyRepresentablePowersOfTen[i]) = false ∧
    (Decimal.binary (Float.exactlyRepresentablePowersOfTen[i])).1 *
        2 ^ (Decimal.binary (Float.exactlyRepresentablePowersOfTen[i])).2.toNat =
      10 ^ i.val * 2 ^ (-(Decimal.binary (Float.exactlyRepresentablePowersOfTen[i])).2).toNat := by
  decide +kernel

theorem quanta_eq_of_scaled {m n : ℕ} {e : ℤ} (h : m * 2 ^ e.toNat = n * 2 ^ (-e).toNat) :
    quanta m e = n := by
  have scaled : (m : ℝ) * 2 ^ e.toNat = n * 2 ^ (-e).toNat := by exact_mod_cast h
  have exponent : (2 : ℝ) ^ e = 2 ^ e.toNat / 2 ^ (-e).toNat := by
    rw [← zpow_natCast, ← zpow_natCast, ← zpow_sub₀ two_ne_zero]
    congr 1
    omega
  rw [quanta, exponent, ← mul_div_assoc, scaled, mul_div_assoc, div_self (by positivity), mul_one]

theorem denotes_powerOfTen {i : ℕ} (h : i < Float.exactlyRepresentablePowersOfTen.size) :
    Denotes Float.exactlyRepresentablePowersOfTen[i] (10 ^ i : ℝ) := by
  obtain ⟨finite, sign, scaled⟩ := binary_powerOfTen ⟨i, h⟩
  have value := denotes_binary finite
  rw [sign, quanta_eq_of_scaled scaled] at value
  simpa [signOf, signed] using value

/-! ## Digits and a power of ten -/

/-- The number of a significand and a power of ten. -/
noncomputable abbrev tens (m : ℕ) (e : ℤ) : ℝ :=
  m * 10 ^ e

theorem fits_natCast {m : ℕ} (h : m < 2 ^ 53) : Fits (m : ℝ) :=
  ⟨m, 0, by rw [Nat.abs_cast]; exact_mod_cast h, by norm_num, by simp⟩

theorem denotes_toUInt64 {m : ℕ} (h : m < 2 ^ 53) : Denotes m.toUInt64.toFloat (m : ℝ) := by
  have word : m.toUInt64.toNat = m := Nat.mod_eq_of_lt (h.trans (by norm_num))
  have small : |(m : ℝ)| < overflow := by
    have digits : (m : ℝ) < 2 ^ 53 := by exact_mod_cast h
    rw [Nat.abs_cast, overflow]
    exact digits.trans (pow_lt_pow_right₀ one_lt_two (by norm_num))
  have value := denotes_toFloat m.toUInt64
  rwa [word, round_coe, nearest_of_fits (fits_natCast h), capped_of_abs_lt small] at value

/-- Zeros behind the digits raise the power of ten. -/
theorem tens_mul (m n : ℕ) (e : ℤ) : tens (m * 10 ^ n) e = tens m (e + n) := by
  rw [tens, tens, zpow_add₀ (by norm_num), zpow_natCast]
  push_cast
  ring

theorem tens_of_nonneg (m : ℕ) {e : ℤ} (h : 0 ≤ e) : tens m e = m * 10 ^ e.natAbs := by
  rw [tens, ← zpow_natCast, Int.natAbs_of_nonneg h]

theorem tens_of_nonpos (m : ℕ) {e : ℤ} (h : e ≤ 0) : tens m e = m / 10 ^ e.natAbs := by
  rw [tens, div_eq_mul_inv, ← zpow_natCast, ← zpow_neg, Int.ofNat_natAbs_of_nonpos h, neg_neg]

/-- A product with a power of ten, formed of more digits than a double has. -/
theorem denotes_scaleUp {m : ℕ} (positive : 0 < m <<< 53) (n : ℕ) :
    Denotes (.ofModel (.pack (UnpackedFloat.mul .binary64
      (.finite .positive (m <<< 53) (-53) positive)
      (.finite .positive (10 ^ n) 0 (Nat.pow_pos (by decide))))))
      (round ((m * 10 ^ n : ℝ) : EReal)) := by
  have product : quanta (m <<< 53 * 10 ^ n) (-53 + 0) = m * 10 ^ n := by
    have unit : (2 : ℝ) ^ (53 : ℕ) * 2 ^ (-53 + 0 : ℤ) = 1 := by
      rw [← zpow_natCast, ← two_zpow_add]
      exact zpow_zero 2
    rw [quanta, Nat.shiftLeft_eq, Nat.cast_mul, Nat.cast_mul, Nat.cast_pow, Nat.cast_pow,
      Nat.cast_ofNat, Nat.cast_ofNat, mul_right_comm, mul_assoc (m : ℝ), unit, mul_one]
  have whole : 0 < m <<< 53 * 10 ^ n := Nat.mul_pos positive (by positivity)
  have enough : 52 ≤ (m <<< 53 * 10 ^ n).log2 := by
    rw [Nat.le_log2 whole.ne']
    rw [Nat.shiftLeft_eq] at positive ⊢
    have some : 1 ≤ m := Nat.pos_of_mul_pos_right positive
    have power : 1 ≤ 10 ^ n := Nat.pow_pos (by decide)
    calc 2 ^ 52 ≤ 1 * 2 ^ 53 * 1 := by norm_num
      _ ≤ m * 2 ^ 53 * 10 ^ n := by gcongr
  rw [← product]
  exact denotes_roundWithAccuracy_exact whole (.inl enough) .positive

theorem denotes_scaleDown {m : ℕ} (positive : 0 < m) (n : ℕ) :
    Denotes (.ofModel (.pack (UnpackedFloat.div .binary64 (.finite .positive m 0 positive)
      (.finite .positive (10 ^ n) 0 (Nat.pow_pos (by decide))))))
      (round ((m / 10 ^ n : ℝ) : EReal)) := by
  have power : 0 < 10 ^ n := Nat.pow_pos (by decide)
  have value := denotes_div_finite .positive .positive 0 0 positive power
  simp only [signed, quanta, zpow_zero, mul_one, Nat.cast_pow, Nat.cast_ofNat,
    ← EReal.coe_div] at value
  exact value

/-- Where digits and power both fit, one operation on doubles is enough. -/
theorem denotes_fast {m i : ℕ} (digits : m < 2 ^ 53)
    (power : i < Float.exactlyRepresentablePowersOfTen.size) :
    Denotes (m.toUInt64.toFloat * Float.exactlyRepresentablePowersOfTen[i])
      (round ((m * 10 ^ i : ℝ) : EReal)) ∧
    Denotes (m.toUInt64.toFloat / Float.exactlyRepresentablePowersOfTen[i])
      (round ((m / 10 ^ i : ℝ) : EReal)) := by
  have left := denotes_toUInt64 digits
  have right := denotes_powerOfTen power
  have nonzero : (10 : ℝ) ^ i ≠ 0 := by positivity
  rw [EReal.coe_mul, EReal.coe_div]
  exact ⟨left.mul right not_noProduct_of_real, left.div right nonzero⟩

/-- Else the digits are brought to one power of ten exactly, and rounded once. -/
theorem denotes_slow (m : ℕ) {e : ℤ} (small : e.natAbs ≤ 2048) :
    Denotes (.ofModel (.ofScientific m e)) (round (tens m e : ℝ)) := by
  unfold Float.Model.ofScientific UnpackedFloat.ofScientific
  have bits : Format.binary64.exponentBits = 11 := rfl
  rcases m.eq_zero_or_pos with rfl | positive
  · rw [dif_pos rfl, tens, Nat.cast_zero, zero_mul, EReal.coe_zero, round_zero]
    exact denotes_zero .positive
  rw [dif_neg positive.ne', if_neg (by rw [bits]; omega), if_neg (by rw [bits]; omega)]
  split_ifs with nonneg
  · have exponent : e.natAbs = e.toNat := by omega
    rw [tens_of_nonneg m nonneg, exponent]
    exact denotes_scaleUp _ _
  · have exponent : e.natAbs = (-e).toNat := by omega
    rw [tens_of_nonpos m (not_le.1 nonneg).le, exponent]
    exact denotes_scaleDown positive _

/-- A decimal makes the nearest double. -/
theorem denotes_ofScientific (m : ℕ) {e : ℤ} (small : e.natAbs ≤ 2048) :
    Denotes (Float.ofScientific m (decide (e < 0)) e.natAbs) (round (tens m e : ℝ)) := by
  unfold Float.ofScientific
  split
  next fast =>
    have value := denotes_fast fast.1 (Nat.lt_succ_of_le fast.2)
    rcases lt_or_ge e 0 with negative | nonneg
    · rw [tens_of_nonpos m negative.le]
      simp only [negative, decide_true, if_true]
      exact value.2
    · rw [tens_of_nonneg m nonneg]
      simp only [nonneg.not_gt, decide_false, Bool.false_eq_true, if_false]
      exact value.1
  next =>
    have signed : (if decide (e < 0) then Int.negOfNat e.natAbs else Int.ofNat e.natAbs) = e := by
      split_ifs with negative
      · rw [Int.negOfNat_eq]
        have below := of_decide_eq_true negative
        change -(e.natAbs : ℤ) = e
        omega
      · have above : ¬e < 0 := fun below => negative (decide_eq_true below)
        change (e.natAbs : ℤ) = e
        omega
    simp only [signed]
    exact denotes_slow m small

end MarketMaker.Double
