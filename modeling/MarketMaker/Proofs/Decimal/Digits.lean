import MarketMaker.Proofs.Double.Scientific

/-!
# Digits

How many digits a number has (`Decimal.countDigits_eq`), and what becomes of the number that a row of
digits stands for when zeros are put in front of it, behind it, or taken off its end.
-/

namespace MarketMaker

open Double (tens)

namespace Numeral

/-! ## Rows of digits -/

theorem natural_append (cs ds : List Char) :
    natural (cs ++ ds) = natural cs * 10 ^ ds.length + natural ds := by
  unfold natural
  rw [Nat.ofDigitChars_append, Nat.ofDigitChars_eq_ofDigitChars_zero, Nat.mul_comm]

theorem natural_replicate_append (n : ℕ) (cs : List Char) :
    natural (List.replicate n '0' ++ cs) = natural cs := by
  have zeros : natural (List.replicate n '0') = 0 := by
    rw [natural, Nat.ofDigitChars_replicate_zero, Nat.mul_zero]
  rw [natural_append, zeros, Nat.zero_mul, Nat.zero_add]

theorem natural_append_replicate (cs : List Char) (n : ℕ) :
    natural (cs ++ List.replicate n '0') = natural cs * 10 ^ n := by
  have zeros := natural_replicate_append n []
  rw [List.append_nil] at zeros
  rw [natural_append, zeros, List.length_replicate]
  rfl

theorem isDigit_digitsOf {n : ℕ} {c : Char} (h : c ∈ digitsOf n) : c.isDigit :=
  Nat.isDigit_of_mem_toDigits (by decide) (by decide) h

theorem digitsOf_ne_nil (n : ℕ) : digitsOf n ≠ [] := Nat.toDigits_ne_nil

end Numeral

namespace Decimal

open Numeral

/-! ## The number of digits -/

/-- A power of numbers is monotone, so one comparison of large powers is enough for all. -/
theorem pow_le_pow_of_mul_le {a b k l m n : ℕ} (base : a ^ k ≤ b ^ l) (some : 0 < a) (pos : l ≠ 0)
    (h : m * l ≤ k * n) : a ^ m ≤ b ^ n := by
  rw [← Nat.pow_le_pow_iff_left pos, ← pow_mul, ← pow_mul]
  calc a ^ (m * l) ≤ a ^ (k * n) := Nat.pow_le_pow_right some h
    _ = (a ^ k) ^ n := pow_mul ..
    _ ≤ (b ^ l) ^ n := Nat.pow_le_pow_left base n
    _ = b ^ (n * l) := by rw [← pow_mul, Nat.mul_comm]

/-- The estimate never exceeds the number of digits, since two has slightly more than `78913 / 262144`
digits. -/
theorem ten_pow_le_two_pow (n : ℕ) : 10 ^ ((n * 78913) >>> 18) ≤ 2 ^ n := by
  have digits : 10 ^ 78913 ≤ 2 ^ 262144 := by decide +kernel
  rw [Nat.shiftRight_eq_div_pow]
  exact pow_le_pow_of_mul_le digits (by decide) (by decide) (by omega)

/-- It is short by at most one, up to some size: two has less than `28 / 93` digits. -/
theorem two_pow_le_ten_pow {n : ℕ} (h : n ≤ 10000) :
    2 ^ (n + 1) ≤ 10 ^ ((n * 78913) >>> 18 + 2) := by
  have digits : 2 ^ 93 ≤ 10 ^ 28 := by decide +kernel
  rw [Nat.shiftRight_eq_div_pow]
  exact pow_le_pow_of_mul_le digits (by decide) (by decide) (by omega)

/-- The number of digits is right, up to a number of ten thousand bits. -/
theorem countDigits_eq {n : ℕ} (h : n.log2 ≤ 10000) : countDigits n = (digitsOf n).length := by
  have most : ∀ k, 0 < k → ((digitsOf n).length ≤ k ↔ n < 10 ^ k) := fun k positive =>
    Nat.length_toDigits_le_iff (by decide) positive
  have some : 0 < (digitsOf n).length := List.length_pos_iff.2 (digitsOf_ne_nil n)
  unfold countDigits
  rcases n.eq_zero_or_pos with rfl | positive
  · decide
  have low : 10 ^ ((n.log2 * 78913) >>> 18) ≤ n :=
    (ten_pow_le_two_pow _).trans (Nat.log2_self_le positive.ne')
  have high : n < 10 ^ ((n.log2 * 78913) >>> 18 + 2) :=
    Nat.lt_log2_self.trans_le (two_pow_le_ten_pow h)
  generalize (n.log2 * 78913) >>> 18 = estimate at low high ⊢
  have atMost := (most (estimate + 2) (by omega)).2 high
  have atLeast : ¬(digitsOf n).length ≤ estimate := by
    intro few
    have below := (most estimate (by omega)).1 few
    omega
  change (if n < 10 ^ (estimate + 1) then estimate + 1 else estimate + 1 + 1) = _
  split
  next less =>
    have fits := (most (estimate + 1) (by omega)).2 less
    omega
  next more =>
    have exceeds : ¬(digitsOf n).length ≤ estimate + 1 := fun fits =>
      more ((most (estimate + 1) (by omega)).1 fits)
    omega

/-! ## Zeros at the end -/

/-- The digits of a decimal, and zeros behind them, are all digits of its significand. -/
theorem digits_append_replicate (d : Decimal) :
    ∃ k, d.digits ++ List.replicate k '0' = digitsOf d.significand := by
  have whole := List.rdropWhile_append_rtakeWhile (p := (· == '0')) (l := digitsOf d.significand)
  have zeros := List.eq_replicate_of_mem fun c member =>
    beq_iff_eq.1 (List.mem_rtakeWhile_imp (p := (· == '0')) (l := digitsOf d.significand) member)
  rw [zeros] at whole
  generalize ((digitsOf d.significand).rtakeWhile (· == '0')).length = k at whole
  unfold digits
  split
  next left =>
    -- Nothing but zeros: one of them is kept.
    change (digitsOf d.significand).rdropWhile (· == '0') = [] at left
    rw [left] at whole
    cases k with
    | zero => exact absurd whole.symm (digitsOf_ne_nil _)
    | succ k => exact ⟨k, whole⟩
  next => exact ⟨k, whole⟩

theorem digits_ne_nil (d : Decimal) : d.digits ≠ [] := by
  unfold digits
  split
  · simp
  next nonempty => exact nonempty

theorem isDigit_digits {d : Decimal} {c : Char} (h : c ∈ d.digits) : c.isDigit := by
  obtain ⟨k, whole⟩ := d.digits_append_replicate
  exact isDigit_digitsOf (whole ▸ List.mem_append_left _ h)

/-- The digits of a decimal miss some zeros, which its lead makes up for. -/
theorem digits_eq {d : Decimal} (h : d.significand.log2 ≤ 10000) (positive : 0 < d.significand) :
    ∃ k : ℕ, d.significand = natural d.digits * 10 ^ k ∧
      d.lead + 1 - d.digits.length = d.scale + k := by
  obtain ⟨k, whole⟩ := d.digits_append_replicate
  have length : countDigits d.significand = d.digits.length + k := by
    rw [countDigits_eq h, ← whole, List.length_append, List.length_replicate]
  refine ⟨k, ?_, ?_⟩
  · rw [← natural_append_replicate, whole, natural_digitsOf]
  · rw [lead, if_neg positive.ne', length]
    omega

end Decimal

end MarketMaker
