import MarketMaker.Proofs.Double.Rounding

/-!
# Rounding by shifts

A result is rounded by shifting its digits to the right until 53 are left. Of the digits shifted out,
two bits are kept, and they tell how the rest compares with a half (`Shows`). So what comes out is the
nearest whole number of quanta (`roundWithAccuracy_eq`), in as many digits as there can be
(`Canonical`).
-/

namespace MarketMaker.Double

open Float.Model (Format totalExponent UnpackedFloat)
open Float.Model.UnpackedFloat (Accuracy ExtendedMantissa Sign accuracyOfFraction roundWithAccuracy
  shiftToExponent shiftToTargetExponent)

/-! ## What is shifted out -/

/-- The digits and the two bits of a number: one tells whether the rest is a half or more, the other
whether there is anything beyond that bit. -/
structure Shows (em : ExtendedMantissa) (x : ℝ) : Prop where
  low : em.mantissa ≤ x
  high : x < em.mantissa + 1
  round : em.roundBit = true ↔ em.mantissa + 1 / 2 ≤ x
  sticky : em.stickyBit = false ↔ x = em.mantissa ∨ x = em.mantissa + 1 / 2

theorem shows_exact (m : ℕ) : Shows (.ofMantissaAndAccuracy m .exact) m where
  low := le_rfl
  high := lt_add_one _
  round := by
    change false = true ↔ (m : ℝ) + 1 / 2 ≤ m
    constructor
    · exact fun h => absurd h (by simp)
    · intro h
      linarith
  sticky := by
    change false = false ↔ (m : ℝ) = m ∨ _
    simp

theorem shows_lt {m : ℕ} {x : ℝ} (low : m < x) (high : x < m + 1 / 2) :
    Shows (.ofMantissaAndAccuracy m (.inexact .lt)) x where
  low := low.le
  high := by
    change x < (m : ℝ) + 1
    linarith
  round := iff_of_false Bool.false_ne_true high.not_ge
  sticky := iff_of_false Bool.false_ne_true.symm fun h => h.elim low.ne' high.ne

theorem shows_half (m : ℕ) : Shows (.ofMantissaAndAccuracy m (.inexact .eq)) (m + 1 / 2) where
  low := by
    change (m : ℝ) ≤ m + 1 / 2
    linarith
  high := by
    change (m : ℝ) + 1 / 2 < m + 1
    linarith
  round := iff_of_true rfl le_rfl
  sticky := iff_of_true rfl (.inr rfl)

theorem shows_gt {m : ℕ} {x : ℝ} (low : m + 1 / 2 < x) (high : x < m + 1) :
    Shows (.ofMantissaAndAccuracy m (.inexact .gt)) x where
  low := by
    change (m : ℝ) ≤ x
    linarith
  high := high
  round := iff_of_true rfl low.le
  sticky := by
    refine iff_of_false Bool.false_ne_true.symm fun h => h.elim (fun whole => ?_) low.ne'
    change x = (m : ℝ) at whole
    linarith

/-- A shift halves, and the digit shifted out is the new round bit. -/
theorem shows_shiftRightOne {em : ExtendedMantissa} {x : ℝ} (h : Shows em x) :
    Shows em.shiftRightOne (x / 2) := by
  obtain ⟨m, round, sticky⟩ := em
  obtain ⟨low, high, rounds, sticks⟩ := h
  change (m : ℝ) ≤ x at low
  change x < m + 1 at high
  change round = true ↔ (m : ℝ) + 1 / 2 ≤ x at rounds
  change sticky = false ↔ x = m ∨ x = m + 1 / 2 at sticks
  -- Of what was kept before, nothing is left exactly where the digits were the whole number.
  have rest : (round || sticky) = false ↔ x = m := by
    rw [Bool.or_eq_false_iff, ← Bool.not_eq_true, rounds, sticks]
    constructor
    · rintro ⟨below, whole | half⟩
      · exact whole
      · exact absurd half.ge below
    · intro whole
      exact ⟨by linarith, .inl whole⟩
  change Shows ⟨m / 2, m % 2 != 0, round || sticky⟩ (x / 2)
  rcases Nat.even_or_odd' m with ⟨k, rfl | rfl⟩
  · have half : 2 * k / 2 = k := by omega
    have digit : (2 * k % 2 != 0) = false := by simp
    rw [half, digit]
    push_cast at low high rest
    refine ⟨by simp only; linarith, by simp only; linarith, ?_, ?_⟩
    · simp only [Bool.false_eq_true, false_iff]
      linarith
    · rw [rest]
      constructor
      · intro whole
        exact .inl (by simp only; linarith)
      · rintro (whole | half) <;> simp only at * <;> linarith
  · have half : (2 * k + 1) / 2 = k := by omega
    have digit : ((2 * k + 1) % 2 != 0) = true := by simp [Nat.add_mod]
    rw [half, digit]
    push_cast at low high rest
    refine ⟨by simp only; linarith, by simp only; linarith, ?_, ?_⟩
    · simp only [true_iff]
      linarith
    · rw [rest]
      constructor
      · intro whole
        exact .inr (by simp only; linarith)
      · rintro (whole | half) <;> simp only at * <;> linarith

theorem shows_shiftRight {em : ExtendedMantissa} {x : ℝ} (h : Shows em x) (n : ℕ) :
    Shows (em >>> n) (x / 2 ^ n) := by
  induction n with
  | zero =>
    rw [pow_zero, div_one]
    exact h
  | succ n ih =>
    have once := shows_shiftRightOne ih
    rwa [div_div, ← pow_succ] at once

/-- Rounding by the two bits is rounding the number. -/
theorem roundedMantissa_eq {em : ExtendedMantissa} {x : ℝ} (h : Shows em x) :
    (em.roundedMantissa : ℤ) = toEven x := by
  obtain ⟨m, round, sticky⟩ := em
  obtain ⟨low, high, rounds, sticks⟩ := h
  change (m : ℝ) ≤ x at low
  change x < m + 1 at high
  change round = true ↔ (m : ℝ) + 1 / 2 ≤ x at rounds
  change sticky = false ↔ x = m ∨ x = m + 1 / 2 at sticks
  have cast : ((m : ℤ) : ℝ) = m := Int.cast_natCast m
  rw [← cast] at low high rounds sticks
  cases round with
  | false =>
    have below : x < (m : ℤ) + 1 / 2 := by simpa using rounds
    rw [toEven_of_lt low below]
    cases sticky <;> rfl
  | true =>
    have above : ((m : ℤ) : ℝ) + 1 / 2 ≤ x := by simpa using rounds
    cases sticky with
    | false =>
      obtain whole | half : x = (m : ℤ) ∨ x = (m : ℤ) + 1 / 2 := by simpa using sticks
      · linarith
      · rw [half, toEven_half]
        rfl
    | true =>
      have other : x ≠ (m : ℤ) + 1 / 2 := by
        rintro half
        simp [half] at sticks
      rw [toEven_of_gt (lt_of_le_of_ne above other.symm) high.le]
      rfl

/-! ## Rounding -/

/-- A whole number of quanta in at most 53 digits, and in no fewer unless the quantum is the least. -/
structure Canonical (m : ℕ) (e : ℤ) : Prop where
  digits : m < 2 ^ 53
  floor : -1074 ≤ e
  normal : 2 ^ 52 ≤ m ∨ e = -1074

/-- The number of some quanta with a sign. -/
def ofQuanta (s : Sign) (m : ℕ) (e : ℤ) : UnpackedFloat :=
  if h : m = 0 then .zero s else .finite s m e (Nat.pos_of_ne_zero h)

theorem targetExponent_of_total (t : ℤ) :
    Format.binary64.targetExponent t = max (t - 53) (-1074) :=
  rfl

theorem targetExponent_eq (m : ℕ) (e : ℤ) :
    Format.binary64.targetExponent (totalExponent m e) = max (m.log2 + e - 52) (-1074) := by
  rw [targetExponent_of_total, totalExponent]
  omega

/-- The exponent that a number is shifted to is that of its quantum. -/
theorem targetExponent_eq_quantum {m : ℕ} {e : ℤ} {x : ℝ} (hx : 0 < x) (low : m ≤ x / 2 ^ e)
    (high : x / 2 ^ e < m + 1) (enough : 52 ≤ m.log2 ∨ e ≤ -1074) :
    Format.binary64.targetExponent (totalExponent m e) = quantum x := by
  rw [targetExponent_eq, quantum, abs_of_pos hx]
  rw [le_div_iff₀ (two_zpow_pos e)] at low
  rw [div_lt_iff₀ (two_zpow_pos e)] at high
  rcases eq_or_ne m 0 with rfl | nonzero
  · -- Less than the least quantum.
    have tiny : e ≤ -1074 := by simpa using enough
    have below : x < ((2 : ℕ) : ℝ) ^ e := by
      push_cast at high ⊢
      linarith
    have log := (Int.lt_zpow_iff_log_lt one_lt_two hx).1 below
    have digits : Nat.log2 0 = 0 := rfl
    rw [digits]
    omega
  · have most : (2 : ℝ) ^ m.log2 ≤ m := by exact_mod_cast Nat.log2_self_le nonzero
    have next : (m : ℝ) + 1 ≤ 2 ^ (m.log2 + 1) := by exact_mod_cast Nat.lt_log2_self
    have above : ((2 : ℕ) : ℝ) ^ ((m.log2 : ℤ) + e) ≤ x := by
      push_cast
      rw [two_zpow_add, zpow_natCast]
      exact (mul_le_mul_of_nonneg_right most (two_zpow_pos e).le).trans low
    have below : x < ((2 : ℕ) : ℝ) ^ ((m.log2 : ℤ) + 1 + e) := by
      refine high.trans_le ?_
      have exponent : ((m.log2 : ℤ) + 1) = ((m.log2 + 1 : ℕ) : ℤ) := by push_cast; rfl
      push_cast
      rw [two_zpow_add, exponent, zpow_natCast]
      exact mul_le_mul_of_nonneg_right next (two_zpow_pos e).le
    have lower := (Int.zpow_le_iff_le_log one_lt_two hx).1 above
    have upper := (Int.lt_zpow_iff_log_lt one_lt_two hx).1 below
    have log : Int.log 2 x = m.log2 + e := by omega
    rw [log]

/-- Digits are left alone where they are as many as there can be. -/
theorem shiftToTargetExponent_of_canonical {m : ℕ} {e : ℤ} (h : m < 2 ^ 53) (floor : -1074 ≤ e) :
    shiftToTargetExponent .binary64 m e .exact = (.ofMantissaAndAccuracy m .exact, e) := by
  have log : m.log2 ≤ 52 := by
    rcases eq_or_ne m 0 with rfl | nonzero
    · decide
    · exact Nat.lt_succ_iff.1 ((Nat.log2_lt nonzero).2 h)
  have shift : (Format.binary64.targetExponent (totalExponent m e) - e).toNat = 0 := by
    rw [targetExponent_eq]
    omega
  rw [shiftToTargetExponent, shiftToExponent, shift]
  simp only [Nat.cast_zero, add_zero]
  rfl

/-- Where rounding carries beyond the last digit, one more shift makes up for it. -/
theorem shiftToTargetExponent_of_carry {e : ℤ} (floor : -1074 ≤ e) :
    shiftToTargetExponent .binary64 (2 ^ 53) e .exact =
      (.ofMantissaAndAccuracy (2 ^ 52) .exact, e + 1) := by
  have shift : (Format.binary64.targetExponent (totalExponent (2 ^ 53) e) - e).toNat = 1 := by
    rw [targetExponent_eq, Nat.log2_two_pow]
    omega
  rw [shiftToTargetExponent, shiftToExponent, shift]
  rfl

@[simp] theorem mantissa_ofMantissaAndAccuracy (m : ℕ) (a : Accuracy) :
    (ExtendedMantissa.ofMantissaAndAccuracy m a).mantissa = m := by
  cases a with
  | exact => rfl
  | inexact o => cases o <;> rfl

/-- The rounded number of quanta. -/
theorem exists_quanta {m : ℕ} {e : ℤ} {a : Accuracy} {x : ℝ} (hx : 0 < x)
    (shows : Shows (.ofMantissaAndAccuracy m a) (x / 2 ^ e))
    (enough : 52 ≤ m.log2 ∨ e ≤ -1074) :
    ∃ em k, shiftToTargetExponent .binary64 m e a = (em, quantum x) ∧ em.roundedMantissa = k ∧
      (k : ℝ) * 2 ^ quantum x = nearest x := by
  have low := shows.low
  have high := shows.high
  rw [mantissa_ofMantissaAndAccuracy] at low high
  have target := targetExponent_eq_quantum hx low high enough
  obtain ⟨n, shift⟩ : ∃ n : ℕ, quantum x = e + n := by
    rw [targetExponent_eq] at target
    exact ⟨(quantum x - e).toNat, by omega⟩
  have shifted := shows_shiftRight shows n
  have scaled : x / 2 ^ e / 2 ^ n = x / 2 ^ quantum x := by
    rw [shift, two_zpow_add, zpow_natCast, div_div]
  rw [scaled] at shifted
  refine ⟨ExtendedMantissa.ofMantissaAndAccuracy m a >>> n, _, ?_, rfl, ?_⟩
  · have amount : (quantum x - e).toNat = n := by omega
    rw [shiftToTargetExponent, target, shiftToExponent, amount, ← shift]
  · rw [nearest, ← roundedMantissa_eq shifted, Int.cast_natCast]

/-- **What is rounded is the nearest whole number of quanta.** -/
theorem roundWithAccuracy_eq {m : ℕ} {e : ℤ} {a : Accuracy} {x : ℝ} (hx : 0 < x)
    (shows : Shows (.ofMantissaAndAccuracy m a) (x / 2 ^ e))
    (enough : 52 ≤ m.log2 ∨ e ≤ -1074) (s : Sign) :
    ∃ k q, Canonical k q ∧ (k : ℝ) * 2 ^ q = nearest x ∧
      roundWithAccuracy .binary64 s m e a = ofQuanta s k q := by
  obtain ⟨em, k, first, rounded, value⟩ := exists_quanta hx shows enough
  have floor : -1074 ≤ quantum x := le_max_right _ _
  have most : k ≤ 2 ^ 53 := by
    have bound := nearest_le_two_zpow x
    rw [← value, add_comm, two_zpow_add, mul_le_mul_iff_left₀ (two_zpow_pos _)] at bound
    exact_mod_cast bound
  have result : roundWithAccuracy .binary64 s m e a =
      let final := shiftToTargetExponent .binary64 k (quantum x) .exact
      ofQuanta s final.1.mantissa final.2 := by
    rw [← rounded, roundWithAccuracy, first]
    rfl
  rcases most.lt_or_eq with less | rfl
  · rw [shiftToTargetExponent_of_canonical less floor] at result
    simp only [mantissa_ofMantissaAndAccuracy] at result
    refine ⟨k, quantum x, ⟨less, floor, ?_⟩, value, result⟩
    rcases floor.lt_or_eq with above | least
    · have bound := two_zpow_le_nearest hx above
      rw [← value, add_comm, two_zpow_add, mul_le_mul_iff_left₀ (two_zpow_pos _)] at bound
      exact .inl (by exact_mod_cast bound)
    · exact .inr least.symm
  · rw [shiftToTargetExponent_of_carry floor] at result
    simp only [mantissa_ofMantissaAndAccuracy] at result
    refine ⟨2 ^ 52, quantum x + 1, ⟨by norm_num, by omega, .inl le_rfl⟩, ?_, result⟩
    rw [← value, two_zpow_add]
    norm_num
    ring

end MarketMaker.Double
