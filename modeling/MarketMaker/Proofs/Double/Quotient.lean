import MarketMaker.Proofs.Double.Arithmetic

/-!
# Quotients and roots

A quotient of doubles is the exact one, rounded (`Denotes.div`), and so is a square root
(`Denotes.sqrt`). Both are found as whole numbers with enough digits, beside which it is kept how
what is left compares with a half.
-/

namespace MarketMaker.Double

open Float.Model (Format UnpackedFloat totalExponent)
open Float.Model.UnpackedFloat (Accuracy ExtendedMantissa Sign accuracyOfFraction roundWithAccuracy)

variable {x y : Float} {a b : EReal}

/-! ## Quotients -/

theorem shows_fraction (n : ℕ) {d : ℕ} (positive : 0 < d) :
    Shows (.ofMantissaAndAccuracy (n / d) (accuracyOfFraction (n % d) d)) (n / d : ℝ) := by
  have whole : (d : ℝ) * (n / d : ℕ) + (n % d : ℕ) = n := by exact_mod_cast Nat.div_add_mod n d
  have divisor : (0 : ℝ) < d := Nat.cast_pos.2 positive
  have rest : (n / d : ℝ) = (n / d : ℕ) + (n % d : ℕ) / d := by
    field_simp
    linarith
  have small : ((n % d : ℕ) : ℝ) / d < 1 := by
    rw [div_lt_one divisor]
    exact_mod_cast Nat.mod_lt n positive
  unfold accuracyOfFraction
  split
  · next zero =>
    rw [rest, zero, Nat.cast_zero, zero_div, add_zero]
    exact shows_exact _
  · next nonzero =>
    have some : 0 < ((n % d : ℕ) : ℝ) / d :=
      div_pos (Nat.cast_pos.2 (Nat.pos_of_ne_zero nonzero)) divisor
    rcases lt_trichotomy (2 * (n % d)) d with less | half | more
    · have below : ((n % d : ℕ) : ℝ) / d < 1 / 2 := by
        have cast : (2 : ℝ) * (n % d : ℕ) < d := by exact_mod_cast less
        rw [div_lt_iff₀ divisor]
        linarith
      rw [compare_lt_iff_lt.2 less, rest]
      exact shows_lt (by linarith) (by linarith)
    · have exact : ((n % d : ℕ) : ℝ) / d = 1 / 2 := by
        have cast : (2 : ℝ) * (n % d : ℕ) = d := by exact_mod_cast half
        rw [div_eq_iff divisor.ne']
        linarith
      rw [compare_eq_iff_eq.2 half, rest, exact]
      exact shows_half _
    · have above : 1 / 2 < ((n % d : ℕ) : ℝ) / d := by
        have cast : (d : ℝ) < 2 * (n % d : ℕ) := by exact_mod_cast more
        rw [lt_div_iff₀ divisor]
        linarith
      rw [compare_gt_iff_gt.2 more, rest]
      exact shows_gt (by linarith) (by linarith)

theorem signed_div (s s' : Sign) (r r' : ℝ) :
    signed (s / s') (r / r') = signed s r / signed s' r' := by
  cases s <;> cases s'
  · exact (neg_div_neg_eq r r').symm
  · exact (neg_div r' r).symm
  · exact (div_neg r).symm
  · rfl

theorem two_pow_log2_mul_le {m : ℕ} (positive : 0 < m) {k n : ℕ} (h : k ≤ m.log2 + n) :
    2 ^ k ≤ m * 2 ^ n := by
  rw [← Nat.le_log2 (by positivity), log2_mul_two_pow positive]
  exact h

theorem denotes_div_finite (s s' : Sign) {m m' : ℕ} (e e' : ℤ) (positive : 0 < m)
    (positive' : 0 < m') :
    Denotes (.ofModel (.pack (UnpackedFloat.div .binary64 (.finite s m e positive)
      (.finite s' m' e' positive')))) (round ((signed s (quanta m e) : EReal) / signed s' (quanta m' e'))) := by
  obtain ⟨t, ht⟩ : ∃ t, min (e - e') (Format.binary64.targetExponent
    (totalExponent m e - totalExponent m' e')) = t := ⟨_, rfl⟩
  obtain ⟨n, hn⟩ : ∃ n, (e - e' - t).toNat = n := ⟨_, rfl⟩
  have result : UnpackedFloat.div .binary64 (.finite s m e positive) (.finite s' m' e' positive') =
      roundWithAccuracy .binary64 (s / s') (m * 2 ^ n / m') t
        (accuracyOfFraction (m * 2 ^ n % m') m') := by
    simp only [UnpackedFloat.div, UnpackedFloat.divCore, Nat.shiftLeft_eq, ht, hn]
  rw [targetExponent_of_total, totalExponent, totalExponent] at ht
  have exponent : (n : ℤ) + t = e - e' := by omega
  have quotient : (m : ℝ) * 2 ^ e / (m' * 2 ^ e') / 2 ^ t = ((m * 2 ^ n : ℕ) : ℝ) / m' := by
    have split : (2 : ℝ) ^ e = 2 ^ n * 2 ^ t * 2 ^ e' := by
      rw [← zpow_natCast, ← two_zpow_add, ← two_zpow_add, exponent, sub_add_cancel]
    have nonzero := (two_zpow_pos t).ne'
    have nonzero' := (two_zpow_pos e').ne'
    rw [split]
    push_cast
    field_simp
  have enough : 52 ≤ (m * 2 ^ n / m').log2 ∨ t ≤ -1074 := by
    by_cases least : t ≤ -1074
    · exact .inr least
    · have divisor : m' < 2 ^ (m'.log2 + 1) := Nat.lt_log2_self
      have dividend : 2 ^ (m'.log2 + 1 + 52) ≤ m * 2 ^ n :=
        two_pow_log2_mul_le positive (by omega)
      have digits : 2 ^ 52 ≤ m * 2 ^ n / m' := by
        rw [Nat.le_div_iff_mul_le positive']
        calc 2 ^ 52 * m' ≤ 2 ^ 52 * 2 ^ (m'.log2 + 1) := Nat.mul_le_mul_left _ divisor.le
          _ = 2 ^ (m'.log2 + 1 + 52) := by rw [← pow_add, add_comm]
          _ ≤ m * 2 ^ n := dividend
      exact .inl ((Nat.le_log2 (by positivity)).2 digits)
  rw [result, ← EReal.coe_div, ← signed_div]
  refine denotes_roundWithAccuracy (div_pos (quanta_pos e positive) (quanta_pos e' positive')) ?_
    enough (s / s')
  rw [quotient]
  exact shows_fraction _ positive'

theorem infinite_div_signed (s s' : Sign) {r : ℝ} (positive : 0 < r) :
    infinite (s / s') = infinite s / signed s' r := by
  have above : (0 : EReal) < r := EReal.coe_pos.2 positive
  have below : ((-r : ℝ) : EReal) < 0 := EReal.coe_neg'.2 (neg_neg_of_pos positive)
  cases s <;> cases s'
  · exact (EReal.bot_div_of_neg_ne_bot below (EReal.coe_ne_bot _)).symm
  · exact (EReal.bot_div_of_pos_ne_top above (EReal.coe_ne_top _)).symm
  · exact (EReal.top_div_of_neg_ne_bot below (EReal.coe_ne_bot _)).symm
  · exact (EReal.top_div_of_pos_ne_top above (EReal.coe_ne_top _)).symm

theorem denotes_div {u v : UnpackedFloat} (ha : number? u = some a) {r : ℝ}
    (hv : number? v = some (r : EReal)) (nonzero : r ≠ 0) :
    Denotes (.ofModel (.pack (UnpackedFloat.div .binary64 u v))) (round (a / r)) := by
  rcases cases_of_number? hv with ⟨_, _, zero⟩ | ⟨s', m', e', positive', rfl, rfl⟩
  · exact absurd zero nonzero
  cases u with
  | notANumber => cases ha
  | infinity s =>
    cases ha
    rw [← infinite_div_signed s s' (quanta_pos e' positive'), round_infinite]
    exact denotes_infinity (s / s')
  | zero s =>
    cases ha
    rw [EReal.zero_div, round_zero]
    exact denotes_zero (s / s')
  | finite s m e positive =>
    cases ha
    exact denotes_div_finite s s' e e' positive positive'

/-- A number divided by a finite one that is not zero. -/
theorem Denotes.div (hx : Denotes x a) {r : ℝ} (hy : Denotes y r) (nonzero : r ≠ 0) :
    Denotes (x / y) (round (a / r)) :=
  denotes_div hx hy nonzero

theorem exists_of_denotes_div {r : ℝ} (hy : Denotes y r) (nonzero : r ≠ 0) {c : EReal}
    (h : Denotes (x / y) c) : ∃ a, Denotes x a ∧ c = round (a / r) := by
  obtain ⟨a, _, hx, _⟩ := exists_denotes_of_strict (f := UnpackedFloat.div .binary64)
    (fun v => by cases v <;> rfl) (fun u => by cases u <;> rfl) h
  exact ⟨a, hx, h.unique (hx.div hy nonzero)⟩

/-! ## Roots -/

theorem shows_sqrt (n : ℕ) :
    Shows (.ofMantissaAndAccuracy n.sqrt (if n - n.sqrt * n.sqrt = 0 then .exact else
      .inexact (if n - n.sqrt * n.sqrt ≤ n.sqrt then .lt else .gt))) √n := by
  have low : n.sqrt * n.sqrt ≤ n := Nat.sqrt_le n
  have high : n < (n.sqrt + 1) * (n.sqrt + 1) := Nat.lt_succ_sqrt n
  generalize n.sqrt = root at low high
  obtain ⟨rest, rfl⟩ : ∃ rest, n = root * root + rest := ⟨n - root * root, by omega⟩
  have above : √((root * root + rest : ℕ) : ℝ) < root + 1 := by
    rw [Real.sqrt_lt' (by positivity), sq]
    exact_mod_cast high
  rw [Nat.add_sub_cancel_left]
  split_ifs with exact small
  · rw [exact, add_zero, Nat.cast_mul, Real.sqrt_mul_self root.cast_nonneg]
    exact shows_exact root
  · have some : (0 : ℝ) < rest := Nat.cast_pos.2 (Nat.pos_of_ne_zero exact)
    have most : (rest : ℝ) ≤ root := Nat.cast_le.2 small
    apply shows_lt
    · rw [Real.lt_sqrt root.cast_nonneg]
      push_cast
      linarith
    · rw [Real.sqrt_lt' (by positivity)]
      push_cast
      linarith
  · have more : (root : ℝ) + 1 ≤ rest := by exact_mod_cast not_le.1 small
    refine shows_gt ?_ above
    rw [Real.lt_sqrt (by positivity)]
    push_cast
    linarith

theorem denotes_sqrt_finite {m : ℕ} (e : ℤ) (positive : 0 < m) :
    Denotes (.ofModel (.pack (UnpackedFloat.sqrt .binary64 (.finite .positive m e positive))))
      (round (√(m * 2 ^ e) : EReal)) := by
  obtain ⟨t, ht⟩ : ∃ t, min (e.ediv 2) (Format.binary64.targetExponent
    ((totalExponent m e + 1).ediv 2)) = t := ⟨_, rfl⟩
  obtain ⟨n, hn⟩ : ∃ n, (e - 2 * t).toNat = n := ⟨_, rfl⟩
  have result : UnpackedFloat.sqrt .binary64 (.finite .positive m e positive) =
      roundWithAccuracy .binary64 .positive (m * 2 ^ n).sqrt t
        (if m * 2 ^ n - (m * 2 ^ n).sqrt * (m * 2 ^ n).sqrt = 0 then .exact else
          .inexact (if m * 2 ^ n - (m * 2 ^ n).sqrt * (m * 2 ^ n).sqrt ≤ (m * 2 ^ n).sqrt
            then .lt else .gt)) := by
    simp only [UnpackedFloat.sqrt, UnpackedFloat.sqrtCore, Nat.shiftLeft_eq, ht, hn]
  rw [targetExponent_of_total, totalExponent] at ht
  have half : ∀ k : ℤ, k.ediv 2 = k / 2 := fun _ => rfl
  rw [half, half] at ht
  have exponent : (n : ℤ) + t + t = e := by omega
  have root : √((m : ℝ) * 2 ^ e) / 2 ^ t = √((m * 2 ^ n : ℕ) : ℝ) := by
    have split : (m : ℝ) * 2 ^ e = ((m * 2 ^ n : ℕ) : ℝ) * (2 ^ t * 2 ^ t) := by
      push_cast
      rw [← exponent, two_zpow_add, two_zpow_add, zpow_natCast]
      ring
    have nonzero := two_zpow_pos t
    rw [split, Real.sqrt_mul (by positivity), Real.sqrt_mul_self nonzero.le,
      mul_div_cancel_right₀ _ nonzero.ne']
  have enough : 52 ≤ (m * 2 ^ n).sqrt.log2 ∨ t ≤ -1074 := by
    by_cases least : t ≤ -1074
    · exact .inr least
    · have digits : 2 ^ 52 ≤ (m * 2 ^ n).sqrt := by
        rw [Nat.le_sqrt, ← pow_add]
        exact two_pow_log2_mul_le positive (by omega)
      exact .inl ((Nat.le_log2 (by positivity)).2 digits)
  rw [result]
  refine denotes_roundWithAccuracy (Real.sqrt_pos.2 (quanta_pos e positive)) ?_ enough .positive
  rw [root]
  exact shows_sqrt _

/-- The root of a number that is not negative. -/
theorem Denotes.sqrt {r : ℝ} (hx : Denotes x r) (nonneg : 0 ≤ r) :
    Denotes x.sqrt (round (√r : EReal)) := by
  change Denotes (.ofModel (.pack (UnpackedFloat.sqrt .binary64 x.toModel.unpack))) _
  rcases cases_of_number? hx with ⟨s, unpacked, rfl⟩ | ⟨s, m, e, positive, unpacked, rfl⟩
  · rw [unpacked, Real.sqrt_zero, EReal.coe_zero, round_zero]
    exact denotes_zero s
  · rw [unpacked]
    cases s with
    | negative => exact absurd (quanta_pos e positive) (not_lt.2 (neg_nonneg.1 nonneg))
    | positive => exact denotes_sqrt_finite e positive

/-- A root that is a number is not negative. -/
theorem nonneg_of_denotes_sqrt (h : Denotes x.sqrt a) : 0 ≤ a := by
  change Denotes (.ofModel (.pack (UnpackedFloat.sqrt .binary64 x.toModel.unpack))) a at h
  cases hu : x.toModel.unpack with
  | notANumber =>
    rw [hu] at h
    exact absurd h not_denotes_notANumber
  | infinity s =>
    rw [hu] at h
    cases s with
    | negative => exact absurd h not_denotes_notANumber
    | positive =>
      rw [h.unique (denotes_infinity .positive)]
      exact le_top
  | zero s =>
    rw [hu] at h
    exact (h.unique (denotes_zero s)).ge
  | finite s m e positive =>
    rw [hu] at h
    cases s with
    | negative => exact absurd h not_denotes_notANumber
    | positive =>
      rw [h.unique (denotes_sqrt_finite e positive)]
      exact round_nonneg (EReal.coe_nonneg.2 (Real.sqrt_nonneg _))

end MarketMaker.Double
