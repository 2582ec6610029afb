import MarketMaker.Double
import MarketMaker.Proofs.Double.Quotient

/-!
# Signs and sizes of results

What comparisons of doubles say about sums, differences, products, quotients and roots. A comparison
that holds is one of numbers. Where a result may be no number, what is said of it is that it is not
negative (`NonNegative`).
-/

namespace MarketMaker.Double

open Float.Model (UnpackedFloat)

variable {x x' y y' z : Float} {a b : EReal}

/-! ## What compares -/

theorem not_isNaN_of_compare {u v : UnpackedFloat} {o : Ordering} (h : u.compare v = some o) :
    u.isNaN = false ∧ v.isNaN = false := by
  cases u with
  | notANumber => cases v <;> cases h
  | _ =>
    cases v with
    | notANumber => cases h
    | _ => exact ⟨rfl, rfl⟩

theorem numbers_of_le (h : x ≤ y) : x.isNaN = false ∧ y.isNaN = false := by
  rcases (le_iff x y).1 h with less | equal
  · exact not_isNaN_of_compare less
  · exact not_isNaN_of_compare equal

theorem numbers_of_lt (h : x < y) : x.isNaN = false ∧ y.isNaN = false :=
  not_isNaN_of_compare ((lt_iff x y).1 h)

theorem exists_of_le (h : x ≤ y) : ∃ a b, Denotes x a ∧ Denotes y b ∧ a ≤ b := by
  obtain ⟨numberx, numbery⟩ := numbers_of_le h
  obtain ⟨a, ha⟩ := exists_denotes numberx
  obtain ⟨b, hb⟩ := exists_denotes numbery
  exact ⟨a, b, ha, hb, (le_iff_of_denotes ha hb).1 h⟩

theorem exists_of_lt (h : x < y) : ∃ a b, Denotes x a ∧ Denotes y b ∧ a < b := by
  obtain ⟨numberx, numbery⟩ := numbers_of_lt h
  obtain ⟨a, ha⟩ := exists_denotes numberx
  obtain ⟨b, hb⟩ := exists_denotes numbery
  exact ⟨a, b, ha, hb, (lt_iff_of_denotes ha hb).1 h⟩

theorem le_trans (h : x ≤ y) (h' : y ≤ z) : x ≤ z := by
  obtain ⟨a, b, ha, hb, le⟩ := exists_of_le h
  obtain ⟨_, c, same, hc, le'⟩ := exists_of_le h'
  obtain rfl := hb.unique same
  exact (le_iff_of_denotes ha hc).2 (le.trans le')

theorem lt_of_le_of_lt (h : x ≤ y) (h' : y < z) : x < z := by
  obtain ⟨a, b, ha, hb, le⟩ := exists_of_le h
  obtain ⟨_, c, same, hc, less⟩ := exists_of_lt h'
  obtain rfl := hb.unique same
  exact (lt_iff_of_denotes ha hc).2 (le.trans_lt less)

theorem lt_of_lt_of_le (h : x < y) (h' : y ≤ z) : x < z := by
  obtain ⟨a, b, ha, hb, less⟩ := exists_of_lt h
  obtain ⟨_, c, same, hc, le⟩ := exists_of_le h'
  obtain rfl := hb.unique same
  exact (lt_iff_of_denotes ha hc).2 (less.trans_le le)

theorem le_self (h : x.isNaN = false) : x ≤ x := by
  obtain ⟨a, ha⟩ := exists_denotes h
  exact (le_iff_of_denotes ha ha).2 le_rfl

theorem denotes_zero_literal : Denotes 0.0 0 := rfl

/-- A power of two. -/
def twoPow (e : ℤ) : Float :=
  .ofModel (.pack (.finite .positive (2 ^ 52) (e - 52) (by decide)))

theorem denotes_twoPow {e : ℤ} (low : -1022 ≤ e) (high : e ≤ 1023) :
    Denotes (twoPow e) (2 ^ e : ℝ) := by
  refine denotes_pack ⟨⟨by norm_num, by omega, .inl le_rfl⟩, by omega⟩ ?_
  have power : signed .positive (((2 ^ 52 : ℕ) : ℝ) * 2 ^ (e - 52)) = 2 ^ e := by
    rw [signed, Nat.cast_pow, Nat.cast_ofNat, ← zpow_natCast, ← two_zpow_add]
    congr 1
    omega
  rw [number?, power]

theorem denotes_one : Denotes 1.0 (1 : ℝ) := by
  have power := denotes_twoPow (e := 0) (by norm_num) (by norm_num)
  rwa [zpow_zero] at power

theorem zero_le_one_literal : (0.0 : Float) ≤ 1.0 := by
  decide +kernel

/-! ## Signs -/

/-- No number, or not less than zero. -/
def NonNegative (x : Float) : Prop :=
  ∀ a, Denotes x a → 0 ≤ a

theorem nonNegative_iff : NonNegative x ↔ ¬x < 0.0 := by
  constructor
  · intro h less
    obtain ⟨a, b, ha, hb, below⟩ := exists_of_lt less
    rw [hb.unique denotes_zero_literal] at below
    exact (h a ha).not_gt below
  · intro h a ha
    by_contra below
    exact h ((lt_iff_of_denotes ha denotes_zero_literal).2 (not_le.1 below))

theorem NonNegative.of_le (h : 0.0 ≤ x) : NonNegative x := by
  rw [nonNegative_iff]
  exact not_lt_of_le h

theorem NonNegative.of_lt (h : 0.0 < x) : NonNegative x := by
  intro a ha
  exact ((lt_iff_of_denotes denotes_zero_literal ha).1 h).le

theorem NonNegative.zero_le (h : NonNegative x) (number : x.isNaN = false) : 0.0 ≤ x := by
  obtain ⟨a, ha⟩ := exists_denotes number
  exact (le_iff_of_denotes denotes_zero_literal ha).2 (h a ha)

theorem NonNegative.zero_le_of_le (h : NonNegative x) (le : x ≤ y) : 0.0 ≤ x :=
  h.zero_le (numbers_of_le le).1

theorem NonNegative.add (hx : NonNegative x) (hy : NonNegative y) : NonNegative (x + y) := by
  intro c hc
  obtain ⟨a, b, ha, hb, _, rfl⟩ := exists_of_denotes_add hc
  exact round_nonneg (add_nonneg (hx a ha) (hy b hb))

theorem NonNegative.mul (hx : NonNegative x) (hy : NonNegative y) : NonNegative (x * y) := by
  intro c hc
  obtain ⟨a, b, ha, hb, _, rfl⟩ := exists_of_denotes_mul hc
  exact round_nonneg (mul_nonneg (hx a ha) (hy b hb))

theorem NonNegative.div (hx : NonNegative x) {r : ℝ} (hy : Denotes y r) (positive : 0 < r) :
    NonNegative (x / y) := by
  intro c hc
  obtain ⟨a, ha, rfl⟩ := exists_of_denotes_div hy positive.ne' hc
  exact round_nonneg (EReal.div_nonneg (hx a ha) (EReal.coe_nonneg.2 positive.le))

theorem nonNegative_sqrt (x : Float) : NonNegative x.sqrt :=
  fun _ h => nonneg_of_denotes_sqrt h

theorem nonNegative_toFloat (n : UInt64) : NonNegative n.toFloat := by
  intro c hc
  rw [hc.unique (denotes_toFloat n)]
  exact round_nonneg (EReal.coe_nonneg.2 (Nat.cast_nonneg _))

theorem NonNegative.smaller (hx : NonNegative x) (hy : NonNegative y) :
    NonNegative (smaller x y) := by
  unfold Double.smaller
  split
  · exact hx
  · exact hy

/-! ## Sizes -/

theorem not_opposed_of_nonneg (ha : 0 ≤ a) (hb : 0 ≤ b) : ¬Opposed a b := by
  rintro (⟨_, rfl⟩ | ⟨rfl, _⟩)
  · exact absurd hb (by simp)
  · exact absurd ha (by simp)

theorem not_opposed_of_real {r : ℝ} : ¬Opposed r b := by
  rintro (⟨top, _⟩ | ⟨bot, _⟩)
  · exact EReal.coe_ne_top r top
  · exact EReal.coe_ne_bot r bot

theorem not_noProduct_of_ne (ha : a ≠ 0) (hb : b ≠ 0) : ¬NoProduct a b := by
  rintro (⟨zero, _⟩ | ⟨_, zero⟩)
  · exact ha zero
  · exact hb zero

theorem not_noProduct_of_real {r r' : ℝ} : ¬NoProduct r r' := by
  rintro (⟨_, top | bot⟩ | ⟨top | bot, _⟩)
  · exact EReal.coe_ne_top r' top
  · exact EReal.coe_ne_bot r' bot
  · exact EReal.coe_ne_top r top
  · exact EReal.coe_ne_bot r bot

theorem not_noProduct_of_pos {r : ℝ} (positive : 0 < r) : ¬NoProduct r b := by
  rintro (⟨zero, _⟩ | ⟨top | bot, _⟩)
  · exact positive.ne' (EReal.coe_eq_zero.1 zero)
  · exact EReal.coe_ne_top r top
  · exact EReal.coe_ne_bot r bot

theorem exists_nonneg (h : 0.0 ≤ x) : ∃ a, Denotes x a ∧ 0 ≤ a := by
  obtain ⟨_, a, zero, ha, nonneg⟩ := exists_of_le h
  obtain rfl := zero.unique denotes_zero_literal
  exact ⟨a, ha, nonneg⟩

theorem sum_le_sum (hx : 0.0 ≤ x) (hxx' : x ≤ x') (hy : 0.0 ≤ y) (hyy' : y ≤ y') :
    x + y ≤ x' + y' := by
  obtain ⟨a, ha, nonneg⟩ := exists_nonneg hx
  obtain ⟨b, hb, nonneg'⟩ := exists_nonneg hy
  obtain ⟨_, a', same, ha', lea⟩ := exists_of_le hxx'
  obtain ⟨_, b', same', hb', leb⟩ := exists_of_le hyy'
  obtain rfl := ha.unique same
  obtain rfl := hb.unique same'
  have sum := ha.add hb (not_opposed_of_nonneg nonneg nonneg')
  have sum' := ha'.add hb' (not_opposed_of_nonneg (nonneg.trans lea) (nonneg'.trans leb))
  rw [le_iff_of_denotes sum sum']
  exact round_mono (add_le_add lea leb)

/-- The first factor of a finite product of two that are not negative. -/
theorem real_of_product (ha : 0 ≤ a) (hb : 0 ≤ b) (h : ¬NoProduct a b) (finite : round (a * b) ≠ ⊤) :
    ∃ r : ℝ, 0 ≤ r ∧ a = r := by
  induction a with
  | bot => exact absurd ha (by simp)
  | coe r => exact ⟨r, EReal.coe_nonneg.1 ha, rfl⟩
  | top =>
    rcases hb.lt_or_eq with positive | zero
    · exact absurd (by rw [EReal.top_mul_of_pos positive, round_top]) finite
    · exact absurd (.inr ⟨.inl rfl, zero.symm⟩) h

theorem NoProduct.symm (h : NoProduct a b) : NoProduct b a :=
  (Or.symm h).imp And.symm And.symm

theorem exists_of_finite_product (hx : NonNegative x) (hy : NonNegative y)
    (finite : (x * y).isFinite = true) :
    ∃ r s : ℝ, 0 ≤ r ∧ 0 ≤ s ∧ Denotes x r ∧ Denotes y s ∧ Denotes (x * y) (round (r * s)) := by
  obtain ⟨c, product⟩ := isFinite_iff.1 finite
  obtain ⟨a, b, ha, hb, definite, value⟩ := exists_of_denotes_mul product
  have nonneg := hx a ha
  have nonneg' := hy b hb
  have bounded : round (a * b) ≠ ⊤ := by
    rw [← value]
    exact EReal.coe_ne_top c
  have swapped : round (b * a) ≠ ⊤ := by rwa [mul_comm]
  obtain ⟨r, nonnegr, rfl⟩ := real_of_product nonneg nonneg' definite bounded
  obtain ⟨s, nonnegs, rfl⟩ := real_of_product nonneg' nonneg (fun h => definite h.symm) swapped
  exact ⟨r, s, nonnegr, nonnegs, ha, hb, ha.mul hb definite⟩

/-- What lies between zero and a finite number. -/
theorem exists_of_le_finite (hx : 0.0 ≤ x) (hxy : x ≤ y) {s : ℝ} (hy : Denotes y s) :
    ∃ r : ℝ, 0 ≤ r ∧ r ≤ s ∧ Denotes x r := by
  obtain ⟨a, ha, nonneg⟩ := exists_nonneg hx
  have le := (le_iff_of_denotes ha hy).1 hxy
  induction a with
  | bot => exact absurd nonneg (by simp)
  | coe r => exact ⟨r, EReal.coe_nonneg.1 nonneg, EReal.coe_le_coe_iff.1 le, ha⟩
  | top => exact absurd (top_le_iff.1 le) (EReal.coe_ne_top s)

/-- A product is monotone in what is not negative, as long as it is finite. -/
theorem product_le_product (hx : 0.0 ≤ x) (hxx' : x ≤ x') (hy : 0.0 ≤ y) (hyy' : y ≤ y')
    (finite : (x' * y').isFinite = true) : x * y ≤ x' * y' := by
  obtain ⟨r', s', _, _, hr', hs', product'⟩ :=
    exists_of_finite_product (.of_le (le_trans hx hxx')) (.of_le (le_trans hy hyy')) finite
  obtain ⟨r, nonnegr, ler, hr⟩ := exists_of_le_finite hx hxx' hr'
  obtain ⟨s, nonnegs, les, hs⟩ := exists_of_le_finite hy hyy' hs'
  have product := hr.mul hs not_noProduct_of_real
  rw [le_iff_of_denotes product product', ← EReal.coe_mul, ← EReal.coe_mul]
  exact round_mono (EReal.coe_le_coe_iff.2 (mul_le_mul ler les nonnegs (nonnegr.trans ler)))

theorem product_le_product_of_pos {r : ℝ} (hx : Denotes x r) (positive : 0 < r) (h : y ≤ z) :
    x * y ≤ x * z := by
  obtain ⟨a, b, ha, hb, le⟩ := exists_of_le h
  have product := hx.mul ha (not_noProduct_of_pos positive)
  have product' := hx.mul hb (not_noProduct_of_pos positive)
  rw [le_iff_of_denotes product product']
  exact round_mono (mul_le_mul_of_nonneg_left le (EReal.coe_nonneg.2 positive.le))

theorem quotient_le_quotient {r : ℝ} (hz : Denotes z r) (positive : 0 < r) (h : x ≤ y) :
    x / z ≤ y / z := by
  obtain ⟨a, b, ha, hb, le⟩ := exists_of_le h
  rw [le_iff_of_denotes (ha.div hz positive.ne') (hb.div hz positive.ne')]
  exact round_mono (EReal.div_le_div_right_of_nonneg (EReal.coe_nonneg.2 positive.le) le)

theorem le_product (hx : 0.0 ≤ x) (hy : 1.0 ≤ y) (finite : (x * y).isFinite = true) :
    x ≤ x * y := by
  obtain ⟨r, s, nonnegr, _, hr, hs, product⟩ :=
    exists_of_finite_product (.of_le hx) (.of_le (le_trans zero_le_one_literal hy)) finite
  have atLeast := EReal.coe_le_coe_iff.1 ((le_iff_of_denotes denotes_one hs).1 hy)
  rw [le_iff_of_denotes hr product, ← EReal.coe_mul]
  calc (r : EReal) = round r := hr.round_eq.symm
    _ ≤ round (r * s : ℝ) :=
        round_mono (EReal.coe_le_coe_iff.2 (le_mul_of_one_le_right nonnegr atLeast))

theorem isFinite_of_product (hx : NonNegative x) (hy : NonNegative y)
    (finite : (x * y).isFinite = true) : x.isFinite = true ∧ y.isFinite = true := by
  obtain ⟨r, s, _, _, hr, hs, _⟩ := exists_of_finite_product hx hy finite
  exact ⟨isFinite_iff.2 ⟨r, hr⟩, isFinite_iff.2 ⟨s, hs⟩⟩

theorem isNaN_of_isFinite (h : x.isFinite = true) : x.isNaN = false := by
  obtain ⟨r, hr⟩ := isFinite_iff.1 h
  exact hr.isNaN

theorem smaller_le (hx : x.isNaN = false) (hy : y.isNaN = false) : smaller x y ≤ y := by
  obtain ⟨a, ha⟩ := exists_denotes hx
  obtain ⟨b, hb⟩ := exists_denotes hy
  unfold smaller
  rw [hy, Bool.or_false]
  split
  · next less =>
    rw [decide_eq_true_eq, lt_iff_of_denotes ha hb] at less
    exact (le_iff_of_denotes ha hb).2 less.le
  · exact le_self hy

/-! ## Results within bounds -/

theorem fits_zero : Fits 0 :=
  ⟨0, 0, by norm_num, by norm_num, by simp⟩

theorem Denotes.fits {r : ℝ} (h : Denotes x r) : Fits r := by
  have shape := representable_unpack x.toModel
  rcases cases_of_number? h with ⟨s, _, rfl⟩ | ⟨s, m, e, positive, unpacked, rfl⟩
  · exact fits_zero
  · rw [unpacked] at shape
    have digits : ((m : ℕ) : ℤ) < 2 ^ 53 := by exact_mod_cast shape.1.digits
    cases s with
    | negative => exact ⟨-m, e, by rwa [abs_neg, Nat.abs_cast], shape.1.floor, by simp [signed]⟩
    | positive => exact ⟨m, e, by rwa [Nat.abs_cast], shape.1.floor, by simp [signed]⟩

theorem fits_two_zpow {e : ℤ} (low : -1074 ≤ e) : Fits (2 ^ e) :=
  ⟨1, e, by norm_num, low, by push_cast; ring⟩

theorem fits_one : Fits 1 := by
  simpa using fits_two_zpow (e := 0) (by norm_num)

theorem two_zpow_lt_overflow {e : ℤ} (high : e ≤ 1023) : (2 : ℝ) ^ e < overflow := by
  have limit : overflow = 2 ^ (1024 : ℤ) := (zpow_natCast 2 1024).symm
  rw [limit]
  exact zpow_lt_zpow_right₀ one_lt_two (by omega)

/-- What lies between two powers of two. -/
theorem exists_between_twoPow {l u : ℤ} (least : -1022 ≤ l) (most : u ≤ 1023) (ordered : l ≤ u)
    (low : twoPow l ≤ x) (high : x ≤ twoPow u) :
    ∃ r : ℝ, Denotes x r ∧ 2 ^ l ≤ r ∧ r ≤ 2 ^ u := by
  have hl := denotes_twoPow least (ordered.trans most)
  have hu := denotes_twoPow (least.trans ordered) most
  have positive : 0.0 ≤ x := by
    refine le_trans ?_ low
    rw [le_iff_of_denotes denotes_zero_literal hl]
    exact EReal.coe_nonneg.2 (two_zpow_pos l).le
  obtain ⟨r, _, below, hr⟩ := exists_of_le_finite positive high hu
  exact ⟨r, hr, EReal.coe_le_coe_iff.1 ((le_iff_of_denotes hl hr).1 low), below⟩

/-- What lies between two doubles is rounded to something between them. -/
theorem round_between {l r u : ℝ} (hl : Fits l) (hu : Fits u) (nonneg : 0 ≤ l) (low : l ≤ r)
    (high : r ≤ u) (below : u < overflow) : ∃ r' : ℝ, round r = r' ∧ l ≤ r' ∧ r' ≤ u := by
  have bottom := le_nearest hl low
  have top := nearest_le hu high
  have positive := overflow_pos
  refine ⟨nearest r, ?_, bottom, top⟩
  rw [round_coe, capped_of_abs_lt]
  exact abs_lt.2 ⟨by linarith, top.trans_lt below⟩

/-- Doubles below one stay away from it. -/
theorem Fits.one_sub {r : ℝ} (h : Fits r) (less : r < 1) : 2 ^ (-53 : ℤ) ≤ 1 - r := by
  obtain ⟨m, e, digits, _, rfl⟩ := h
  rcases lt_or_ge e (-53) with small | large
  · have most : (m : ℝ) ≤ 2 ^ (53 : ℤ) := by
      have le : m ≤ 2 ^ 53 := (le_abs_self m).trans digits.le
      exact_mod_cast le
    have below : (m : ℝ) * 2 ^ e ≤ 1 / 2 := by
      calc (m : ℝ) * 2 ^ e ≤ 2 ^ (53 : ℤ) * 2 ^ (-54 : ℤ) :=
            mul_le_mul most (two_zpow_le (by omega)) (two_zpow_pos e).le (two_zpow_pos 53).le
        _ = 1 / 2 := by norm_num
    have unit : (2 : ℝ) ^ (-53 : ℤ) ≤ 1 / 2 := by norm_num
    refine unit.trans ?_
    linarith
  · -- One is a whole number of quanta, and so is what is below it.
    obtain ⟨n, rfl⟩ : ∃ n : ℕ, e = n + -53 := ⟨(e + 53).toNat, by omega⟩
    have one : (1 : ℝ) = ((2 ^ 53 : ℤ) : ℝ) * 2 ^ (-53 : ℤ) := by norm_num
    have whole : (m : ℝ) * 2 ^ ((n : ℤ) + -53) = ((m * 2 ^ n : ℤ) : ℝ) * 2 ^ (-53 : ℤ) := by
      rw [two_zpow_add, zpow_natCast, ← mul_assoc]
      push_cast
      rfl
    rw [whole] at less ⊢
    have below : m * 2 ^ n < 2 ^ 53 := by
      have scaled := less.trans_eq one
      exact_mod_cast lt_of_mul_lt_mul_right scaled (two_zpow_pos (-53)).le
    have next : ((m * 2 ^ n : ℤ) : ℝ) + 1 ≤ ((2 ^ 53 : ℤ) : ℝ) := by exact_mod_cast below
    have sum := mul_le_mul_of_nonneg_right next (two_zpow_pos (-53)).le
    rw [add_mul, one_mul, ← one] at sum
    linarith

/-! ## Differences -/

theorem Fits.exists_least {r : ℝ} (h : Fits r) : ∃ n : ℤ, r = n * 2 ^ (-1074 : ℤ) := by
  obtain ⟨m, e, _, low, rfl⟩ := h
  obtain ⟨n, rfl⟩ : ∃ n : ℕ, e = n + -1074 := ⟨(e + 1074).toNat, by omega⟩
  refine ⟨m * 2 ^ n, ?_⟩
  rw [two_zpow_add, zpow_natCast, ← mul_assoc]
  push_cast
  rfl

/-- Doubles that differ do so by at least the least double. -/
theorem Fits.least_le_sub {r s : ℝ} (hr : Fits r) (hs : Fits s) (less : s < r) :
    2 ^ (-1074 : ℤ) ≤ r - s := by
  obtain ⟨m, rfl⟩ := hr.exists_least
  obtain ⟨n, rfl⟩ := hs.exists_least
  have unit := two_zpow_pos (-1074)
  have below : n < m := by exact_mod_cast lt_of_mul_lt_mul_right less unit.le
  have next : (n : ℝ) + 1 ≤ m := by exact_mod_cast below
  have scaled := mul_le_mul_of_nonneg_right next unit.le
  rw [add_mul, one_mul] at scaled
  linarith

theorem round_pos {r : ℝ} (h : 2 ^ (-1074 : ℤ) ≤ r) : 0 < round r := by
  have unit := two_zpow_pos (-1074)
  have small : |(2 : ℝ) ^ (-1074 : ℤ)| < overflow := by
    rw [abs_of_pos unit]
    exact two_zpow_lt_overflow (by norm_num)
  calc (0 : EReal) < (2 ^ (-1074 : ℤ) : ℝ) := EReal.coe_pos.2 unit
    _ = capped (2 ^ (-1074 : ℤ)) := (capped_of_abs_lt small).symm
    _ ≤ capped (nearest r) := capped_mono (le_nearest (fits_two_zpow le_rfl) h)
    _ = round r := (round_coe r).symm

/-- A difference has the right sign: it does not vanish where the two differ. -/
theorem round_sub_nonpos_iff (hx : Denotes x a) (hy : Denotes y b) :
    round (a - b) ≤ 0 ↔ a ≤ b := by
  refine ⟨fun nonpos => ?_, fun le => round_nonpos (EReal.sub_nonpos.2 le)⟩
  by_contra above
  rw [not_le] at above
  refine nonpos.not_gt ?_
  cases a with
  | bot => exact absurd above not_lt_bot
  | coe r =>
    cases b with
    | bot =>
      rw [EReal.coe_sub_bot, round_top]
      exact EReal.zero_lt_top
    | coe s =>
      rw [← EReal.coe_sub]
      exact round_pos (hx.fits.least_le_sub hy.fits (EReal.coe_lt_coe_iff.1 above))
    | top => exact absurd above not_top_lt
  | top =>
    cases b with
    | bot =>
      rw [EReal.top_sub_bot, round_top]
      exact EReal.zero_lt_top
    | coe s =>
      rw [EReal.top_sub_coe, round_top]
      exact EReal.zero_lt_top
    | top => exact absurd above (lt_irrefl _)

theorem Denotes.of_neg (h : Denotes (-x) a) : Denotes x (-a) := by
  have twice : x.toModel.unpack.neg.neg = x.toModel.unpack := by
    cases x.toModel.unpack with
    | notANumber => rfl
    | infinity s | zero s | finite s m e positive => cases s <;> rfl
  have back := h.neg
  unfold Denotes at back
  rwa [unpack_neg, unpack_neg, twice] at back

/-- What differs by a number are numbers. -/
theorem exists_of_denotes_sub {c : EReal} (h : Denotes (x - y) c) :
    ∃ a b, Denotes x a ∧ Denotes y b ∧ c = round (a - b) := by
  rw [sub_eq_add] at h
  obtain ⟨a, b, ha, hb, _, value⟩ := exists_of_denotes_add h
  exact ⟨a, -b, ha, hb.of_neg, by rw [value, sub_eq_add_neg, neg_neg]⟩

/-- Nothing grows by taking away what is not negative. -/
theorem le_of_denotes_sub {c : EReal} (h : Denotes (x - y) c) (hx : Denotes x a)
    (hy : NonNegative y) : c ≤ a := by
  obtain ⟨a', b, ha, hb, rfl⟩ := exists_of_denotes_sub h
  obtain rfl := hx.unique ha
  have less : a - b ≤ a := by
    rw [sub_eq_add_neg]
    exact add_le_of_nonpos_right (EReal.neg_le_zero.2 (hy b hb))
  calc round (a - b) ≤ round a := round_mono less
    _ = a := hx.round_eq

/-- Nothing shrinks by taking away what is not positive. -/
theorem ge_of_denotes_sub {c : EReal} (h : Denotes (x - y) c) (hx : Denotes x a)
    (hy : ∀ b, Denotes y b → b ≤ 0) : a ≤ c := by
  obtain ⟨a', b, ha, hb, rfl⟩ := exists_of_denotes_sub h
  obtain rfl := hx.unique ha
  have more : a ≤ a - b := by
    rw [sub_eq_add_neg]
    exact le_add_of_nonneg_right (EReal.neg_nonneg.2 (hy b hb))
  calc a = round a := hx.round_eq.symm
    _ ≤ round (a - b) := round_mono more

theorem NonNegative.sub (hx : NonNegative x) (hy : y ≤ 0.0) : NonNegative (x - y) := by
  intro c hc
  obtain ⟨a, b, ha, hb, rfl⟩ := exists_of_denotes_sub hc
  have nonpos := (le_iff_of_denotes hb denotes_zero_literal).1 hy
  rw [sub_eq_add_neg]
  exact round_nonneg (add_nonneg (hx a ha) (EReal.neg_nonneg.2 nonpos))

end MarketMaker.Double
