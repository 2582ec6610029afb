import MarketMaker.Proofs.Double.Whole

/-!
# Multiples and running totals

A double can be added up from copies of itself, rounding each time, or multiplied at once. Both give
the same as long as adding one more to the rounded multiple gives the next one rounded
(`runningTotal_eq`). That is so for the first five multiples of any double (`steady_of_lt_four`), where
only adding to the triple takes an argument (`nearest_quadruple`), and it is so as long as the
multiples fit (`steady_of_fits`).
-/

namespace MarketMaker.Double

variable {x : Float} {r : ℝ}

/-- What is finite after it was capped was not capped. -/
theorem eq_of_capped {x c : ℝ} (h : capped x = c) : capped x = x := by
  unfold capped at h ⊢
  split_ifs at h ⊢
  · exact absurd h.symm (EReal.coe_ne_top c)
  · exact absurd h.symm (EReal.coe_ne_bot c)
  · rfl

/-! ## Doubling -/

theorem Fits.mul_two_pow (h : Fits r) (n : ℕ) : Fits (2 ^ n * r) := by
  obtain ⟨m, e, digits, low, rfl⟩ := h
  refine ⟨m, e + n, digits, by omega, ?_⟩
  rw [two_zpow_add, zpow_natCast]
  ring

theorem denotes_two : Denotes 2.0 (2 : ℝ) := by
  have power := denotes_twoPow (e := 1) (by norm_num) (by norm_num)
  rwa [zpow_one] at power

/-- A double is doubled without rounding. -/
theorem Denotes.double (hr : Denotes x r) (finite : (x * 2.0).isFinite = true) :
    Denotes (x * 2.0) (2 * r : ℝ) := by
  have product := hr.mul denotes_two not_noProduct_of_real
  have fits : Fits (r * 2) := by simpa [mul_comm] using hr.fits.mul_two_pow 1
  rw [← EReal.coe_mul, round_coe, nearest_of_fits fits] at product
  obtain ⟨c, hc⟩ := isFinite_iff.1 finite
  rwa [eq_of_capped (product.unique hc), mul_comm] at product

/-! ## Rounding to halves and quarters -/

theorem toEven_half_of_int (n : ℤ) : toEven (n / 2) = (n + n / 2 % 2) / 2 := by
  rcases Int.even_or_odd' n with ⟨k, rfl | rfl⟩
  · have whole : ((2 * k : ℤ) : ℝ) / 2 = (k : ℤ) := by
      push_cast
      ring
    rw [whole, toEven_intCast]
    omega
  · have half : ((2 * k + 1 : ℤ) : ℝ) / 2 = k + 1 / 2 := by
      push_cast
      ring
    have below : (2 * k + 1) / 2 = k := by omega
    rw [half, toEven_half, below]
    omega

theorem toEven_quarter_of_int (n : ℤ) : toEven (n / 4) = (n + 1 + n / 4 % 2) / 4 := by
  obtain ⟨k, c, low, high, rfl⟩ : ∃ k c : ℤ, 0 ≤ c ∧ c < 4 ∧ n = 4 * k + c :=
    ⟨n / 4, n % 4, by omega, by omega, by omega⟩
  obtain rfl | rfl | rfl | rfl : c = 0 ∨ c = 1 ∨ c = 2 ∨ c = 3 := by omega
  · rw [toEven_of_lt (n := k) (by push_cast; linarith) (by push_cast; linarith)]
    omega
  · rw [toEven_of_lt (n := k) (by push_cast; linarith) (by push_cast; linarith)]
    omega
  · have half : ((4 * k + 2 : ℤ) : ℝ) / 4 = k + 1 / 2 := by
      push_cast
      ring
    have below : (4 * k + 2) / 4 = k := by omega
    rw [half, toEven_half, below]
    omega
  · rw [toEven_of_gt (n := k) (by push_cast; linarith) (by push_cast; linarith)]
    omega

theorem quantum_eq {q : ℤ} (least : -1074 ≤ q) (low : 2 ^ (q + 52) ≤ r) (high : r < 2 ^ (q + 53)) :
    quantum r = q := by
  have positive : 0 < r := (two_zpow_pos _).trans_le low
  have above := (Int.zpow_le_iff_le_log (b := 2) one_lt_two positive).1 (by exact_mod_cast low)
  have below := (Int.lt_zpow_iff_log_lt (b := 2) one_lt_two positive).1 (by exact_mod_cast high)
  rw [quantum, abs_of_pos positive]
  omega

/-- A number of too many digits is rounded to those that fit. -/
theorem nearest_quanta {n e : ℤ} (j : ℕ) (least : -1074 ≤ e) (low : 2 ^ (52 + j) ≤ n)
    (high : n < 2 ^ (53 + j)) :
    nearest (n * 2 ^ e) = (toEven (n / 2 ^ j) * 2 ^ j : ℤ) * 2 ^ e := by
  have unit := two_zpow_pos e
  have same : quantum (n * 2 ^ e) = e + j := by
    apply quantum_eq (by omega)
    · have power : (2 : ℝ) ^ (e + j + 52) = ((2 ^ (52 + j) : ℤ) : ℝ) * 2 ^ e := by
        push_cast
        rw [← zpow_natCast, ← two_zpow_add]
        congr 1
        push_cast
        ring
      rw [power]
      exact mul_le_mul_of_nonneg_right (by exact_mod_cast low) unit.le
    · have power : (2 : ℝ) ^ (e + j + 53) = ((2 ^ (53 + j) : ℤ) : ℝ) * 2 ^ e := by
        push_cast
        rw [← zpow_natCast, ← two_zpow_add]
        congr 1
        push_cast
        ring
      rw [power]
      exact mul_lt_mul_of_pos_right (by exact_mod_cast high) unit
  have scaled : (n : ℝ) * 2 ^ e / 2 ^ (e + j) = n / 2 ^ j := by
    rw [two_zpow_add, zpow_natCast, mul_comm (2 ^ e : ℝ), mul_div_mul_right _ _ unit.ne']
  rw [nearest, same, scaled, two_zpow_add, zpow_natCast]
  push_cast
  ring

theorem nearest_pair {n e : ℤ} (least : -1074 ≤ e) (low : 2 ^ 53 ≤ n) (high : n < 2 ^ 54) :
    nearest (n * 2 ^ e) = ((n + n / 2 % 2) / 2 * 2 : ℤ) * 2 ^ e := by
  have rounded := nearest_quanta 1 least low high
  rwa [pow_one, pow_one, toEven_half_of_int] at rounded

theorem nearest_four {n e : ℤ} (least : -1074 ≤ e) (low : 2 ^ 54 ≤ n) (high : n < 2 ^ 55) :
    nearest (n * 2 ^ e) = ((n + 1 + n / 4 % 2) / 4 * 4 : ℤ) * 2 ^ e := by
  have rounded := nearest_quanta 2 least low high
  norm_num at rounded
  rw [rounded, toEven_quarter_of_int, Int.cast_mul, Int.cast_ofNat]

theorem pair_of_near {m n : ℤ} (low : 4 * m - 1 ≤ n) (high : n ≤ 4 * m + 1) :
    (n + n / 2 % 2) / 2 * 2 = 4 * m := by
  obtain rfl | rfl | rfl : n = 4 * m - 1 ∨ n = 4 * m ∨ n = 4 * m + 1 := by omega
  all_goals omega

theorem four_of_near {m n : ℤ} (low : 4 * m - 2 ≤ n) (high : n ≤ 4 * m + 2)
    (even : n = 4 * m - 2 ∨ n = 4 * m + 2 → m % 2 = 0) : (n + 1 + n / 4 % 2) / 4 * 4 = 4 * m := by
  by_cases tie : n = 4 * m - 2 ∨ n = 4 * m + 2
  · have half := even tie
    rcases tie with rfl | rfl <;> omega
  · omega

/-- The triple, rounded, and one more come to the quadruple. What the triple was rounded by is at most
half of what lies between the doubles there, and half of it only where the quadruple is even. -/
theorem nearest_quadruple_of_pos {m e : ℤ} (positive : 0 < m) (digits : m < 2 ^ 53)
    (least : -1074 ≤ e) :
    nearest (nearest ((3 * m : ℤ) * 2 ^ e) + m * 2 ^ e) = (4 * m : ℤ) * 2 ^ e := by
  have fits : Fits ((4 * m : ℤ) * 2 ^ e) := by
    have double : Fits (2 ^ 2 * (m * 2 ^ e)) :=
      Fits.mul_two_pow ⟨m, e, by rwa [abs_of_pos positive], least, rfl⟩ 2
    convert double using 1
    push_cast
    ring
  rcases lt_or_ge (3 * m) (2 ^ 53) with exact | more
  · have triple : Fits ((3 * m : ℤ) * 2 ^ e) :=
      ⟨3 * m, e, by rwa [abs_of_pos (by omega)], least, rfl⟩
    have sum : ((3 * m : ℤ) : ℝ) * 2 ^ e + m * 2 ^ e = (4 * m : ℤ) * 2 ^ e := by
      push_cast
      ring
    rw [nearest_of_fits triple, sum, nearest_of_fits fits]
  rcases lt_or_ge (3 * m) (2 ^ 54) with pair | most
  · rw [nearest_pair least more pair, ← add_mul, ← Int.cast_add]
    generalize sum : (3 * m + 3 * m / 2 % 2) / 2 * 2 + m = n
    have low : 4 * m - 1 ≤ n := by omega
    have high : n ≤ 4 * m + 1 := by omega
    rcases lt_or_ge n (2 ^ 54) with lower | upper
    · rw [nearest_pair least (by omega) lower, pair_of_near low high]
    · rw [nearest_four least upper (by omega), four_of_near (m := m) (by omega) (by omega) (by omega)]
  · rw [nearest_four least most (by omega), ← add_mul, ← Int.cast_add]
    generalize sum : (3 * m + 1 + 3 * m / 4 % 2) / 4 * 4 + m = n
    have near : 4 * m - 2 ≤ n ∧ n ≤ 4 * m + 2 ∧ (n = 4 * m - 2 ∨ n = 4 * m + 2 → m % 2 = 0) := by
      obtain ⟨p, c, low, high, rfl⟩ : ∃ p c : ℤ, 0 ≤ c ∧ c < 4 ∧ m = 4 * p + c :=
        ⟨m / 4, m % 4, by omega, by omega, by omega⟩
      obtain rfl | rfl | rfl | rfl : c = 0 ∨ c = 1 ∨ c = 2 ∨ c = 3 := by omega
      all_goals omega
    obtain ⟨low, high, even⟩ := near
    rw [nearest_four least (by omega) (by omega), four_of_near low high even]

theorem nearest_quadruple (h : Fits r) : nearest (nearest (3 * r) + r) = 4 * r := by
  obtain ⟨m, e, digits, least, rfl⟩ := h
  obtain ⟨low, high⟩ := abs_lt.1 digits
  have triple (n : ℤ) : 3 * ((n : ℝ) * 2 ^ e) = (3 * n : ℤ) * 2 ^ e := by
    push_cast
    ring
  have quadruple (n : ℤ) : 4 * ((n : ℝ) * 2 ^ e) = (4 * n : ℤ) * 2 ^ e := by
    push_cast
    ring
  rcases lt_trichotomy m 0 with negative | rfl | positive
  · have mirrored := nearest_quadruple_of_pos (m := -m) (by omega) (by omega) least
    rw [← triple, ← quadruple, Int.cast_neg, neg_mul, mul_neg, mul_neg, nearest_neg, ← neg_add,
      nearest_neg] at mirrored
    exact neg_injective mirrored
  · simp
  · rw [triple, quadruple]
    exact nearest_quadruple_of_pos positive high least

/-! ## Running totals -/

/-- The sum of a number and some copies of it, rounded after each. -/
noncomputable def runningTotal (r : ℝ) : ℕ → EReal
  | 0 => r
  | k + 1 => round (runningTotal r k + r)

/-- Rounding the multiple before one more is added to it does not change what the sum rounds to. -/
def Steady (r : ℝ) (k : ℕ) : Prop :=
  nearest (nearest ((k + 1) * r) + r) = nearest ((k + 1) * r + r)

variable {k : ℕ}

theorem steady_of_fits (h : Fits ((k + 1) * r)) : Steady r k := by
  rw [Steady, nearest_of_fits h]

theorem steady_of_lt_four (h : Fits r) (few : k < 4) : Steady r k := by
  obtain rfl | rfl | rfl | rfl : k = 0 ∨ k = 1 ∨ k = 2 ∨ k = 3 := by omega
  · apply steady_of_fits
    simpa using h
  · apply steady_of_fits
    convert h.mul_two_pow 1 using 1
    norm_num
  · have three : ((2 : ℕ) : ℝ) + 1 = 3 := by norm_num
    have four : 3 * r + r = 2 ^ 2 * r := by ring
    rw [Steady, three, four, nearest_quadruple h, nearest_of_fits (h.mul_two_pow 2)]
    norm_num
  · apply steady_of_fits
    convert h.mul_two_pow 2 using 1
    norm_num

theorem fits_multiple {m e : ℤ} (least : -1074 ≤ e) (digits : (k + 1) * |m| < 2 ^ 53) :
    Fits ((k + 1) * (m * 2 ^ e)) := by
  refine ⟨(k + 1) * m, e, ?_, least, ?_⟩
  · rwa [abs_mul, abs_of_nonneg (by omega)]
  · push_cast
    ring

/-- A multiple that overflows keeps doing so. -/
theorem round_add_of_steady (h : Steady r k) :
    round (round ((k + 1) * r : ℝ) + r) = round ((k + 2) * r : ℝ) := by
  rw [round_coe, round_coe ((k + 2) * r)]
  have large := overflow_pos
  have count : (0 : ℝ) ≤ k + 1 := by positivity
  have next : ((k : ℝ) + 1) * r + r = (k + 2) * r := by ring
  rcases lt_or_ge |nearest ((k + 1) * r)| overflow with small | big
  · rw [capped_of_abs_lt small, ← EReal.coe_add, round_coe, h, next]
  · rcases le_abs.1 big with high | low
    · have positive : 0 ≤ r := by
        by_contra negative
        have none := nearest_nonpos (mul_nonpos_of_nonneg_of_nonpos count (not_le.1 negative).le)
        linarith
      have further : ((k : ℝ) + 1) * r ≤ (k + 2) * r := by linarith
      rw [capped_of_le high, capped_of_le (high.trans (nearest_mono further)), EReal.top_add_coe,
        round_top]
    · have negative : r ≤ 0 := by
        by_contra positive
        have none := nearest_nonneg (mul_nonneg count (not_le.1 positive).le)
        linarith
      have further : ((k : ℝ) + 2) * r ≤ (k + 1) * r := by linarith
      have lower := nearest_mono further
      rw [capped_of_le_neg (by linarith), capped_of_le_neg (by linarith), EReal.bot_add, round_bot]

/-- Running totals are rounded multiples as long as rounding stays with the multiples. -/
theorem runningTotal_eq (hr : round r = r) (h : ∀ j < k, Steady r j) :
    runningTotal r k = round ((k + 1) * r : ℝ) := by
  induction k with
  | zero => simpa [runningTotal] using hr.symm
  | succ k ih =>
    have next : (((k + 1 : ℕ) : ℝ) + 1) * r = (k + 2) * r := by
      push_cast
      ring
    rw [runningTotal, ih fun j less => h j (by omega), round_add_of_steady (h k (by omega)), next]

/-! ## What adding up keeps -/

theorem round_between_powers {l u : ℤ} {a : ℝ} (least : -1074 ≤ l) (most : u ≤ 1023)
    (low : 2 ^ l ≤ a) (high : a ≤ 2 ^ u) : ∃ b : ℝ, round a = b ∧ 2 ^ l ≤ b ∧ b ≤ 2 ^ u := by
  have ordered : l ≤ u := (zpow_le_zpow_iff_right₀ one_lt_two).1 (low.trans high)
  exact round_between (fits_two_zpow least) (fits_two_zpow (least.trans ordered))
    (two_zpow_pos l).le low high (two_zpow_lt_overflow most)

theorem round_ne_zero {a : ℝ} (h : 2 ^ (-1074 : ℤ) ≤ |a|) : round a ≠ 0 := by
  rcases le_abs.1 h with above | below
  · exact (round_pos above).ne'
  · have mirrored := (round_pos below).ne'
    rw [EReal.coe_neg, round_neg] at mirrored
    exact fun zero => mirrored (by rw [zero, neg_zero])

/-- A multiple of a power of two, by a count that a double holds. -/
theorem fits_multiple_of_two_zpow {E : ℤ} (least : -1074 ≤ E) (few : k + 1 < 2 ^ 53) :
    Fits ((k + 1) * 2 ^ E) := by
  have one : ((k : ℤ) + 1) * |1| < 2 ^ 53 := by
    rw [abs_one, mul_one]
    exact_mod_cast few
  simpa using fits_multiple least one

theorem multiple_lt_overflow {E : ℤ} (most : E + 53 ≤ 1023) (few : k + 1 < 2 ^ 53) :
    ((k : ℝ) + 1) * 2 ^ E < overflow := by
  have count : (k : ℝ) + 1 ≤ 2 ^ (53 : ℤ) := by exact_mod_cast few.le
  calc ((k : ℝ) + 1) * 2 ^ E ≤ 2 ^ (53 : ℤ) * 2 ^ E :=
        mul_le_mul_of_nonneg_right count (two_zpow_pos E).le
    _ = 2 ^ (E + 53) := by rw [add_comm E, two_zpow_add]
    _ < overflow := two_zpow_lt_overflow most

/-- A whole number of quanta that is no larger than some power of two as many times as a count. -/
structure Spans (e E : ℤ) (k : ℕ) (a : ℝ) : Prop where
  whole : IsWhole e a
  bound : |a| ≤ (k + 1) * 2 ^ E

theorem Spans.round {e E : ℤ} {a : ℝ} (h : Spans e E k a) (least : -1074 ≤ e) (low : -1074 ≤ E)
    (most : E + 53 ≤ 1023) (few : k + 1 < 2 ^ 53) :
    ∃ b : ℝ, Double.round a = b ∧ Spans e E k b := by
  have fits := fits_multiple_of_two_zpow low few
  exact ⟨_, round_of_abs_le fits h.bound (multiple_lt_overflow most few), h.whole.nearest least,
    abs_nearest_le fits h.bound⟩

/-- A running total of what spans quanta up to a power of two spans them up to the multiple of that. -/
theorem exists_runningTotal {e E : ℤ} (least : -1074 ≤ e) (low : -1074 ≤ E) (most : E + 53 ≤ 1023)
    (hr : Spans e E 0 r) (few : k + 1 < 2 ^ 53) :
    ∃ t : ℝ, runningTotal r k = t ∧ Spans e E k t := by
  induction k with
  | zero => exact ⟨r, rfl, hr⟩
  | succ k ih =>
    obtain ⟨t, total, spans⟩ := ih (by omega)
    rw [runningTotal, total, ← EReal.coe_add]
    apply Spans.round _ least low most few
    refine ⟨spans.whole.add hr.whole, ?_⟩
    have sum := (abs_add_le t r).trans (add_le_add spans.bound hr.bound)
    push_cast at sum ⊢
    linarith

end MarketMaker.Double
