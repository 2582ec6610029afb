import MarketMaker.Proofs.Double.Monotone
import MarketMaker.Proofs.Double.Multiples
import MarketMaker.Proofs.Slippage

/-!
# What slippage costs

At a rate and a volatility up to a million, the fraction of its price that an order loses is finite and
not negative (`zero_le_fraction`). It grows with the order and with the volatility, since every
operation on the way to it is monotone (`fraction_le_fraction`), and from ten thousand units on it
stays the same (`sizeFactor_of_le`). What slippage does to a price is to the disadvantage of the order
on either side (`le_apply_buy`, `apply_sell_le`).
-/

namespace MarketMaker.Slippage

open Double

variable {rate volatility volatility' : Float} {o o' : Order}

/-! ## The size of an order -/

theorem toFloat_le_toFloat {m n : UInt64} (h : m ≤ n) : m.toFloat ≤ n.toFloat := by
  rw [le_iff_of_denotes (denotes_toFloat m) (denotes_toFloat n)]
  have counts : (m.toNat : ℝ) ≤ n.toNat := by exact_mod_cast UInt64.le_iff_toNat_le.1 h
  exact round_mono (EReal.coe_le_coe_iff.2 counts)

theorem thousands_le_thousands {m n : UInt64} (h : m ≤ n) :
    m.toFloat / 1000.0 ≤ n.toFloat / 1000.0 := by
  obtain ⟨r, positive, hr⟩ := exists_thousand
  exact quotient_le_quotient hr positive (toFloat_le_toFloat h)

theorem sizeFactor_le_sizeFactor {m n : UInt64} (h : m ≤ n) : sizeFactor m ≤ sizeFactor n := by
  have thousands := thousands_le_thousands h
  have ten := (numbers_of_le zero_le_ten).2
  rcases smaller_cases (n.toFloat / 1000.0) ten with
    ⟨_, own⟩ | ⟨_, most⟩
  · rw [sizeFactor, sizeFactor, own]
    exact Double.le_trans (picks_smaller.left _ _ (numbers_of_le thousands).1 ten) thousands
  · rw [sizeFactor, sizeFactor, most]
    exact sizeFactor_le m

/-- Beyond ten thousand units an order counts as no larger. -/
theorem sizeFactor_of_le {n : UInt64} (h : 10000 ≤ n) : sizeFactor n = 10.0 :=
  smaller_of_le (Double.le_trans (by decide +kernel) (thousands_le_thousands h))

/-! ## The fraction -/

/-- A rate or a volatility up to a million. -/
def Moderate (x : Float) : Prop :=
  0.0 ≤ x ∧ x ≤ 1000000.0

instance (x : Float) : Decidable (Moderate x) :=
  inferInstanceAs (Decidable (_ ∧ _))

theorem isFinite_largest (hr : Moderate rate) (hv : Moderate volatility) :
    (largest rate volatility).isFinite = true := by
  have million : NonNegative 1000000.0 := .of_le (Double.le_trans hr.1 hr.2)
  have ceiling : (largest 1000000.0 1000000.0).isFinite = true := by decide +kernel
  obtain ⟨finiteLimit, _⟩ :=
    isFinite_of_product (nonNegative_atSize million (.of_le zero_le_ten) million)
      (.of_le zero_le_two) ceiling
  have limit : atSize rate 10.0 volatility ≤ atSize 1000000.0 10.0 1000000.0 :=
    atSize_le_atSize hr.1 hr.2 zero_le_ten (le_self (numbers_of_le zero_le_ten).2) hv.1 hv.2
      finiteLimit
  have nonneg := nonNegative_atSize (.of_le hr.1) (.of_le zero_le_ten) (.of_le hv.1)
  have most : largest rate volatility ≤ largest 1000000.0 1000000.0 :=
    product_le_product (nonneg.zero_le_of_le limit) limit zero_le_two
      (le_self (numbers_of_le zero_le_two).2) ceiling
  exact isFinite_of_le ((nonNegative_largest (.of_le hr.1) (.of_le hv.1)).zero_le_of_le most) most
    ceiling

theorem zero_le_fraction (hr : Moderate rate) (hv : Moderate volatility) (o : Order) :
    0.0 ≤ fraction rate o volatility :=
  (nonNegative_fraction (.of_le hr.1) (.of_le hv.1) o).zero_le_of_le
    (fraction_le_largest (.of_le hr.1) (.of_le hv.1) (isFinite_largest hr hv) o)

theorem isFinite_fraction (hr : Moderate rate) (hv : Moderate volatility) (o : Order) :
    (fraction rate o volatility).isFinite = true := by
  have finite := isFinite_largest hr hv
  have most := fraction_le_largest (.of_le hr.1) (.of_le hv.1) finite o
  exact isFinite_of_le (zero_le_fraction hr hv o) most finite

theorem fraction_of_market (h : o.kind = .market) :
    fraction rate o volatility = limitFraction rate o.quantity volatility * 2.0 := by
  simp [fraction, Order.isMarket, h]

theorem fraction_of_limit (h : o.kind = .limit) :
    fraction rate o volatility = limitFraction rate o.quantity volatility := by
  simp [fraction, Order.isMarket, h]

/-- A larger order loses no less than a smaller one, nor one at a higher volatility. -/
theorem fraction_le_fraction (hr : Moderate rate) (hv : Moderate volatility)
    (hv' : Moderate volatility') (kinds : o.kind = o'.kind) (quantities : o.quantity ≤ o'.quantity)
    (volatilities : volatility ≤ volatility') :
    fraction rate o volatility ≤ fraction rate o' volatility' := by
  have finite := isFinite_fraction hr hv' o'
  have limit (finite : (limitFraction rate o'.quantity volatility').isFinite = true) :
      limitFraction rate o.quantity volatility ≤ limitFraction rate o'.quantity volatility' :=
    atSize_le_atSize hr.1 (le_self (numbers_of_le hr.1).2) (zero_le_sizeFactor o.quantity)
      (sizeFactor_le_sizeFactor quantities) hv.1 volatilities finite
  cases kind : o'.kind with
  | market =>
    rw [fraction_of_market (kinds.trans kind)]
    rw [fraction_of_market kind] at finite ⊢
    have nonneg (n : UInt64) {v : Float} (hv : Moderate v) : NonNegative (limitFraction rate n v) :=
      nonNegative_atSize (.of_le hr.1) (nonNegative_sizeFactor n) (.of_le hv.1)
    obtain ⟨finiteLimit, _⟩ :=
      isFinite_of_product (nonneg o'.quantity hv') (.of_le zero_le_two) finite
    have less := limit finiteLimit
    exact product_le_product ((nonneg o.quantity hv).zero_le_of_le less) less zero_le_two
      (le_self (numbers_of_le zero_le_two).2) finite
  | limit =>
    rw [fraction_of_limit (kinds.trans kind)]
    rw [fraction_of_limit kind] at finite ⊢
    exact limit finite

/-! ## The price -/

theorem le_apply_buy {p f : Float} (finite : p.isFinite = true) (positive : 0.0 < p)
    (nonneg : 0.0 ≤ f) : p ≤ apply .buy p f := by
  obtain ⟨r, hp, hr⟩ := exists_positive finite positive
  have more : 1.0 ≤ 1.0 + f := by
    obtain ⟨b, hb, above⟩ := exists_nonneg nonneg
    rw [le_iff_of_denotes denotes_one (denotes_one.add hb not_opposed_of_real)]
    calc ((1 : ℝ) : EReal) = Double.round (1 : ℝ) := denotes_one.round_eq.symm
      _ ≤ Double.round ((1 : ℝ) + b) := round_mono (le_add_of_nonneg_right above)
  have once : p ≤ p * 1.0 := (le_iff_of_denotes hr (denotes_mul_one hr)).2 le_rfl
  exact Double.le_trans once (product_le_product_of_pos hr hp more)

theorem apply_sell_le {p f : Float} (finite : p.isFinite = true) (positive : 0.0 < p)
    (nonneg : 0.0 ≤ f) : apply .sell p f ≤ p := by
  obtain ⟨r, hp, hr⟩ := exists_positive finite positive
  have less : 1.0 - f ≤ 1.0 := by
    obtain ⟨b, hb, _⟩ := exists_nonneg nonneg
    have difference := denotes_one.sub hb not_opposed_of_real
    rw [le_iff_of_denotes difference denotes_one]
    exact le_of_denotes_sub difference denotes_one (.of_le nonneg)
  have once : p * 1.0 ≤ p := (le_iff_of_denotes (denotes_mul_one hr) hr).2 le_rfl
  exact Double.le_trans (product_le_product_of_pos hr hp less) once

/-! ## Against the order -/

/-- Slippage at a rate works against orders, grows with their quantity and with the volatility, and
saturates. -/
structure Adverse (rate : Float) : Prop where
  nonneg : ∀ o v, Moderate v → 0.0 ≤ fraction rate o v
  mono : ∀ (o o' : Order) v v', Moderate v → Moderate v' → o.kind = o'.kind →
    o.quantity ≤ o'.quantity → v ≤ v' → fraction rate o v ≤ fraction rate o' v'
  saturated : ∀ (o o' : Order) v, o.kind = o'.kind → 10000 ≤ o.quantity → 10000 ≤ o'.quantity →
    fraction rate o v = fraction rate o' v
  /-- An order at the market loses exactly twice what one with a limit does. -/
  doubled : ∀ (o o' : Order) v, Moderate v → o.kind = .market → o'.kind = .limit →
    o.quantity = o'.quantity →
      ∃ r : ℝ, Denotes (fraction rate o' v) r ∧ Denotes (fraction rate o v) (2 * r : ℝ)
  against : ∀ o v p, Moderate v → p.isFinite = true → 0.0 < p →
    p ≤ apply .buy p (fraction rate o v) ∧ apply .sell p (fraction rate o v) ≤ p

theorem works_against (hr : Moderate rate) : Adverse rate where
  nonneg o _ hv := zero_le_fraction hr hv o
  mono _ _ _ _ hv hv' := fraction_le_fraction hr hv hv'
  saturated o o' v kinds large large' := by
    have same : limitFraction rate o.quantity v = limitFraction rate o'.quantity v := by
      rw [limitFraction, limitFraction, sizeFactor_of_le large, sizeFactor_of_le large']
    rw [fraction, fraction, Order.isMarket, Order.isMarket, kinds, same]
  doubled o o' v hv market limit quantities := by
    obtain ⟨r, hr'⟩ := isFinite_iff.1 (isFinite_fraction hr hv o')
    have finite := isFinite_fraction hr hv o
    rw [fraction_of_market market, quantities, ← fraction_of_limit limit] at finite ⊢
    exact ⟨r, hr', hr'.double finite⟩
  against o _ _ hv finite positive :=
    ⟨le_apply_buy finite positive (zero_le_fraction hr hv o),
      apply_sell_le finite positive (zero_le_fraction hr hv o)⟩

/-- At the standard rate, a purchase of a lot, one of a quantity beyond saturation, and one at the
market. -/
theorem works_against_sample :
    let lot : Order := ⟨1, "A", .buy, .limit, 100, 100.0, 2⟩
    let bulk : Order := { lot with quantity := 18446744073709551615 }
    let market : Order := { lot with kind := .market }
    Moderate standardRate ∧ Moderate 0.01 ∧ Moderate 1000000.0 ∧
      fraction standardRate lot 0.01 ≤ fraction standardRate bulk 1000000.0 ∧
      fraction standardRate bulk 0.01 = fraction standardRate { lot with quantity := 10000 } 0.01 ∧
      (∃ r : ℝ, Denotes (fraction standardRate lot 0.01) r ∧
        Denotes (fraction standardRate market 0.01) (2 * r : ℝ)) ∧
      1e308 ≤ apply .buy 1e308 (fraction standardRate bulk 1000000.0) := by
  intro lot bulk market
  have rate : Moderate standardRate := by decide +kernel
  have low : Moderate 0.01 := by decide +kernel
  have high : Moderate 1000000.0 := by decide +kernel
  have adverse := works_against rate
  refine ⟨rate, low, high, ?_, ?_, ?_, ?_⟩
  · exact adverse.mono lot bulk 0.01 1000000.0 low high rfl (by decide) (by decide +kernel)
  · exact adverse.saturated bulk _ 0.01 rfl (by decide) (by decide)
  · exact adverse.doubled market lot 0.01 low rfl rfl rfl
  · exact (adverse.against bulk 1000000.0 1e308 high (by decide +kernel) (by decide +kernel)).1

end MarketMaker.Slippage
