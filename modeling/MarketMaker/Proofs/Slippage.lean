import MarketMaker.Execution.Slippage
import MarketMaker.Proofs.Double.Comparison
import MarketMaker.Settings.Validate

/-!
# How far slippage goes

The fraction of its price that an order loses is never negative, though it may be no number
(`nonNegative_fraction`), and at a given volatility no order loses more than a market order of ten
thousand units (`fraction_le_largest`). Below one, it leaves a price finite and positive unless the
price was extreme (`apply_sound`); from one on, a sale is at no positive price (`apply_sell_nonpos`).
-/

namespace MarketMaker.Slippage

open Double

theorem exists_of_isNonNegative {x : Float} (h : isNonNegative x = true) :
    x.isFinite = true ∧ 0.0 ≤ x := by
  obtain ⟨finite, sign⟩ := Bool.and_eq_true_iff.1 h
  have nonneg : NonNegative x := nonNegative_iff.2 (by simpa using sign)
  exact ⟨finite, nonneg.zero_le (isNaN_of_isFinite finite)⟩

/-! ## The fraction -/

theorem exists_positive {x : Float} (finite : x.isFinite = true) (h : 0.0 < x) :
    ∃ r : ℝ, 0 < r ∧ Denotes x r := by
  obtain ⟨r, hr⟩ := isFinite_iff.1 finite
  exact ⟨r, EReal.coe_pos.1 ((lt_iff_of_denotes denotes_zero_literal hr).1 h), hr⟩

/-- The numbers in the formula of the fraction, besides one. -/
def constants : List Float :=
  [0.1, 2.0, 10.0, 1000.0, 10000.0]

theorem constants_positive : ∀ c ∈ constants, c.isFinite = true ∧ 0.0 < c := by
  decide +kernel

section

variable {c : Float}

theorem exists_of_mem_constants (h : c ∈ constants) : ∃ r : ℝ, 0 < r ∧ Denotes c r :=
  exists_positive (constants_positive c h).1 (constants_positive c h).2

theorem zero_le_of_mem_constants (h : c ∈ constants) : 0.0 ≤ c :=
  (NonNegative.of_lt (constants_positive c h).2).zero_le
    (isNaN_of_isFinite (constants_positive c h).1)

end

theorem zero_le_tenth : (0.0 : Float) ≤ 0.1 :=
  zero_le_of_mem_constants (by simp [constants])

theorem zero_le_two : (0.0 : Float) ≤ 2.0 :=
  zero_le_of_mem_constants (by simp [constants])

theorem zero_le_ten : (0.0 : Float) ≤ 10.0 :=
  zero_le_of_mem_constants (by simp [constants])

theorem exists_thousand : ∃ r : ℝ, 0 < r ∧ Denotes 1000.0 r :=
  exists_of_mem_constants (by simp [constants])

theorem exists_ten_thousand : ∃ r : ℝ, 0 < r ∧ Denotes 10000.0 r :=
  exists_of_mem_constants (by simp [constants])

theorem nonNegative_sizeFactor (quantity : UInt64) : NonNegative (sizeFactor quantity) := by
  obtain ⟨r, positive, hr⟩ := exists_thousand
  exact ((nonNegative_toFloat quantity).div hr positive).smaller (.of_le zero_le_ten)

/-- A limit order's fraction, by its size in thousands of units. -/
def atSize (rate size volatility : Float) : Float :=
  rate / 10000.0 * (1.0 + 0.1 * size) * (1.0 + 2.0 * volatility)

/-- What a market order of ten thousand units loses. -/
def largest (rate volatility : Float) : Float :=
  rate / 10000.0 * (1.0 + 0.1 * 10.0) * (1.0 + 2.0 * volatility) * 2.0

section

variable {rate rate' size size' volatility volatility' : Float}

theorem nonNegative_atSize (hr : NonNegative rate) (hs : NonNegative size)
    (hv : NonNegative volatility) : NonNegative (atSize rate size volatility) := by
  obtain ⟨r, positive, ten⟩ := exists_ten_thousand
  have one : NonNegative 1.0 := .of_le zero_le_one_literal
  have tenth : NonNegative 0.1 := .of_le zero_le_tenth
  have two : NonNegative 2.0 := .of_le zero_le_two
  exact ((hr.div ten positive).mul (one.add (tenth.mul hs))).mul (one.add (two.mul hv))

theorem nonNegative_largest (hr : NonNegative rate) (hv : NonNegative volatility) :
    NonNegative (largest rate volatility) :=
  (nonNegative_atSize hr (.of_le zero_le_ten) hv).mul (.of_le zero_le_two)

theorem nonNegative_fraction (hr : NonNegative rate) (hv : NonNegative volatility) (o : Order) :
    NonNegative (fraction rate o volatility) := by
  have limit : NonNegative (limitFraction rate o.quantity volatility) :=
    nonNegative_atSize hr (nonNegative_sizeFactor o.quantity) hv
  unfold fraction
  cases o.isMarket with
  | true => exact limit.mul (.of_le zero_le_two)
  | false => exact limit

/-- Where the fraction is a number, so are the rate and the volatility. -/
theorem numbers_of_atSize (h : (atSize rate size volatility).isNaN = false) :
    rate.isNaN = false ∧ volatility.isNaN = false := by
  obtain ⟨r, positive, ten⟩ := exists_ten_thousand
  obtain ⟨_, hc⟩ := exists_denotes h
  obtain ⟨_, _, hsized, hnoise, _⟩ := exists_of_denotes_mul hc
  obtain ⟨_, _, hbase, _⟩ := exists_of_denotes_mul hsized
  obtain ⟨_, hrate, _⟩ := exists_of_denotes_div ten positive.ne' hbase
  obtain ⟨_, _, _, hdouble, _⟩ := exists_of_denotes_add hnoise
  obtain ⟨_, _, _, hvolatility, _⟩ := exists_of_denotes_mul hdouble
  exact ⟨hrate.isNaN, hvolatility.isNaN⟩

/-- The increase by a constant multiple of something is monotone in that. -/
theorem increase_le_increase {c : Float} (hc : c ∈ constants) (hs : 0.0 ≤ size)
    (h : size ≤ size') : 0.0 ≤ 1.0 + c * size ∧ 1.0 + c * size ≤ 1.0 + c * size' := by
  obtain ⟨r, positive, hr⟩ := exists_of_mem_constants hc
  have grown : c * size ≤ c * size' := product_le_product_of_pos hr positive h
  have growth : NonNegative (c * size) :=
    NonNegative.mul (.of_le (zero_le_of_mem_constants hc)) (.of_le hs)
  have sum : 1.0 + c * size ≤ 1.0 + c * size' :=
    sum_le_sum zero_le_one_literal (le_self denotes_one.isNaN) (growth.zero_le_of_le grown) grown
  exact ⟨((NonNegative.of_le zero_le_one_literal).add growth).zero_le_of_le sum, sum⟩

/-- The fraction grows with the rate, the size and the volatility, as long as it is finite. Each
operation on the way is monotone. -/
theorem atSize_le_atSize (hr : 0.0 ≤ rate) (rates : rate ≤ rate') (hs : 0.0 ≤ size)
    (sizes : size ≤ size') (hv : 0.0 ≤ volatility) (volatilities : volatility ≤ volatility')
    (finite : (atSize rate' size' volatility').isFinite = true) :
    atSize rate size volatility ≤ atSize rate' size' volatility' := by
  obtain ⟨r, positive, ten⟩ := exists_ten_thousand
  have base : rate / 10000.0 ≤ rate' / 10000.0 := quotient_le_quotient ten positive rates
  have zeroBase := ((NonNegative.of_le hr).div ten positive).zero_le_of_le base
  obtain ⟨zeroGrowth, growth⟩ :=
    increase_le_increase (c := 0.1) (by simp [constants]) hs sizes
  obtain ⟨zeroNoise, noise⟩ :=
    increase_le_increase (c := 2.0) (by simp [constants]) hv volatilities
  have nonneg : NonNegative (rate' / 10000.0 * (1.0 + 0.1 * size')) :=
    NonNegative.mul (.of_le (Double.le_trans zeroBase base))
      (.of_le (Double.le_trans zeroGrowth growth))
  obtain ⟨finiteSized, _⟩ :=
    isFinite_of_product nonneg (.of_le (Double.le_trans zeroNoise noise)) finite
  have sized := product_le_product zeroBase base zeroGrowth growth finiteSized
  have zeroSized := (NonNegative.mul (.of_le zeroBase) (.of_le zeroGrowth)).zero_le_of_le sized
  exact product_le_product zeroSized sized zeroNoise noise finite

end

theorem sizeFactor_le (quantity : UInt64) : sizeFactor quantity ≤ 10.0 := by
  obtain ⟨r, positive, hr⟩ := exists_thousand
  have thousands := (denotes_toFloat quantity).div hr positive.ne'
  exact smaller_le thousands.isNaN (numbers_of_le zero_le_ten).2

theorem zero_le_sizeFactor (quantity : UInt64) : 0.0 ≤ sizeFactor quantity :=
  (nonNegative_sizeFactor quantity).zero_le_of_le (sizeFactor_le quantity)

/-- No order loses more than the largest does, if that is finite. -/
theorem fraction_le_largest {rate volatility : Float} (hr : NonNegative rate)
    (hv : NonNegative volatility) (finite : (largest rate volatility).isFinite = true) (o : Order) :
    fraction rate o volatility ≤ largest rate volatility := by
  have most := nonNegative_atSize hr (.of_le zero_le_ten) hv
  obtain ⟨finiteLimit, _⟩ := isFinite_of_product most (.of_le zero_le_two) finite
  obtain ⟨numberRate, numberVolatility⟩ := numbers_of_atSize (isNaN_of_isFinite finiteLimit)
  have limited : limitFraction rate o.quantity volatility ≤ atSize rate 10.0 volatility :=
    atSize_le_atSize (hr.zero_le numberRate) (le_self numberRate) (zero_le_sizeFactor o.quantity)
      (sizeFactor_le o.quantity) (hv.zero_le numberVolatility) (le_self numberVolatility)
      finiteLimit
  have nonneg : NonNegative (limitFraction rate o.quantity volatility) :=
    nonNegative_atSize hr (nonNegative_sizeFactor o.quantity) hv
  unfold fraction
  cases o.isMarket with
  | true =>
    exact product_le_product (nonneg.zero_le_of_le limited) limited zero_le_two
      (le_self (numbers_of_le zero_le_two).2) finite
  | false =>
    have zeroLimit := most.zero_le (isNaN_of_isFinite finiteLimit)
    exact Double.le_trans limited (le_product zeroLimit (by decide +kernel) finite)

/-! ## The price -/

/-- A price far from underflow and from overflow. -/
def Ordinary (price : Float) : Prop :=
  1e-300 ≤ price ∧ price ≤ 1e300

theorem Ordinary.exists {p : Float} (h : Ordinary p) :
    ∃ r : ℝ, Denotes p r ∧ 2 ^ (-1021 : ℤ) ≤ r ∧ r ≤ 2 ^ (1022 : ℤ) :=
  exists_between_twoPow (by norm_num) (by norm_num) (by norm_num)
    (Double.le_trans (by decide +kernel) h.1) (Double.le_trans h.2 (by decide +kernel))

/-- A fraction that leaves something. -/
def Partial (fraction : Float) : Prop :=
  0.0 ≤ fraction ∧ fraction < 1.0

theorem Partial.exists {f : Float} (h : Partial f) : ∃ r : ℝ, Denotes f r ∧ 0 ≤ r ∧ r < 1 := by
  obtain ⟨a, ha, nonneg⟩ := exists_nonneg h.1
  have below := (lt_iff_of_denotes ha denotes_one).1 h.2
  induction a with
  | bot => exact absurd nonneg (by simp)
  | coe r => exact ⟨r, ha, EReal.coe_nonneg.1 nonneg, EReal.coe_lt_coe_iff.1 below⟩
  | top => exact absurd below (by simp)

variable {p f : Float}

theorem partial_of_nonNegative (h : NonNegative f) (below : f < 1.0) : Partial f :=
  ⟨h.zero_le (numbers_of_lt below).1, below⟩

theorem Partial.isFinite (h : Partial f) : f.isFinite = true := by
  obtain ⟨r, hr, _⟩ := h.exists
  exact isFinite_iff.2 ⟨r, hr⟩

theorem apply_buy (hp : Ordinary p) (hf : Partial f) :
    (apply .buy p f).isFinite = true ∧ p ≤ apply .buy p f := by
  obtain ⟨r, hr, low, high⟩ := hp.exists
  obtain ⟨s, hs, nonneg, below⟩ := hf.exists
  have positive : 0 < r := (two_zpow_pos _).trans_le low
  have two : Fits 2 := by simpa using fits_two_zpow (e := 1) (by norm_num)
  have bound : (2 : ℝ) < overflow := by simpa using two_zpow_lt_overflow (e := 1) (by norm_num)
  have sum := denotes_one.add hs not_opposed_of_real
  obtain ⟨q, factor, atLeast, atMost⟩ :=
    round_between fits_one two zero_le_one (show 1 ≤ 1 + s by linarith) (by linarith) bound
  rw [← EReal.coe_add, factor] at sum
  have product := hr.mul sum not_noProduct_of_real
  have rise : r ≤ r * q := le_mul_of_one_le_right positive.le atLeast
  have ceiling : r * q ≤ 2 ^ (1023 : ℤ) := by
    calc r * q ≤ 2 ^ (1022 : ℤ) * 2 :=
          mul_le_mul high atMost (by linarith) (two_zpow_pos _).le
      _ = 2 ^ (1023 : ℤ) := by rw [← zpow_add_one₀ two_ne_zero]; rfl
  obtain ⟨c, price, above, _⟩ := round_between hr.fits (fits_two_zpow (by norm_num)) positive.le
    rise ceiling (two_zpow_lt_overflow (by norm_num))
  rw [← EReal.coe_mul, price] at product
  exact ⟨isFinite_iff.2 ⟨c, product⟩, (le_iff_of_denotes hr product).2 (EReal.coe_le_coe_iff.2 above)⟩

theorem apply_sell (hp : Ordinary p) (hf : Partial f) :
    (apply .sell p f).isFinite = true ∧ 0.0 < apply .sell p f ∧ apply .sell p f ≤ p := by
  obtain ⟨r, hr, low, high⟩ := hp.exists
  obtain ⟨s, hs, nonneg, below⟩ := hf.exists
  have unit := two_zpow_pos (-53)
  have positive : 0 < r := (two_zpow_pos _).trans_le low
  have bound : (1 : ℝ) < overflow := by simpa using two_zpow_lt_overflow (e := 0) (by norm_num)
  have difference := denotes_one.sub hs not_opposed_of_real
  obtain ⟨q, factor, atLeast, atMost⟩ := round_between (fits_two_zpow (by norm_num)) fits_one unit.le
    (hs.fits.one_sub below) (show 1 - s ≤ 1 by linarith) bound
  rw [← EReal.coe_sub, factor] at difference
  have product := hr.mul difference not_noProduct_of_real
  have remainder : 2 ^ (-1074 : ℤ) ≤ r * q := by
    calc (2 : ℝ) ^ (-1074 : ℤ) = 2 ^ (-1021 : ℤ) * 2 ^ (-53 : ℤ) := by rw [← two_zpow_add]; rfl
      _ ≤ r * q := mul_le_mul low atLeast unit.le positive.le
  have fall : r * q ≤ r := mul_le_of_le_one_right positive.le atMost
  obtain ⟨c, price, above, under⟩ := round_between (fits_two_zpow (by norm_num)) hr.fits
    (two_zpow_pos _).le remainder fall (high.trans_lt (two_zpow_lt_overflow (by norm_num)))
  rw [← EReal.coe_mul, price] at product
  refine ⟨isFinite_iff.2 ⟨c, product⟩, ?_, (le_iff_of_denotes product hr).2 (EReal.coe_le_coe_iff.2 under)⟩
  exact (lt_iff_of_denotes denotes_zero_literal product).2
    (EReal.coe_pos.2 ((two_zpow_pos _).trans_le above))

/-- Nothing is left of the price where the fraction is one or more. -/
theorem apply_sell_nonpos (finite : p.isFinite = true) (hp : 0.0 < p) (hf : 1.0 ≤ f) :
    apply .sell p f ≤ 0.0 := by
  obtain ⟨r, positive, hr⟩ := exists_positive finite hp
  obtain ⟨_, b, same, hb, atLeast⟩ := exists_of_le hf
  obtain rfl := same.unique denotes_one
  have difference := denotes_one.sub hb not_opposed_of_real
  have nonpos := round_nonpos (EReal.sub_nonpos.2 atLeast)
  have product := hr.mul difference (not_noProduct_of_pos positive)
  rw [Slippage.apply, le_iff_of_denotes product denotes_zero_literal]
  exact round_nonpos (EReal.mul_nonpos_iff.2 (.inl ⟨EReal.coe_nonneg.2 positive.le, nonpos⟩))

end MarketMaker.Slippage
