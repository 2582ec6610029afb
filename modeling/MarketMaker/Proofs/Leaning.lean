import MarketMaker.Proofs.Double.Multiples
import MarketMaker.Proofs.Double.Whole
import MarketMaker.Proofs.Refusals
import MarketMaker.Proofs.Validation

/-!
# How quotes lean

Both quotes of a tick stand where they would without a position, less one shift that grows with the
position (`Quoter.Quoted.price_eq`, `Quoter.shift_mono`): every operation on the way to the shift is
monotone, also where it rounds or overflows. So the more is held, the lower both quotes, and quotes
are never above where they stand unskewed while the position is at its target or above it, never below
while it is at its target or below it (`Quoter.quotes_lean`).
-/

namespace MarketMaker.Quoter

open Double

variable {q q' : Quoter} {t : Tick} {o : Order} {a b : EReal}

@[simp] theorem reset_priceImprovement (q : Quoter) :
    q.reset.priceImprovement = q.priceImprovement := rfl

theorem priceImprovement_eq_of_reset (h : q'.reset = q.reset) :
    q'.priceImprovement = q.priceImprovement := by
  rw [← reset_priceImprovement q', h, reset_priceImprovement]

/-- Where the quotes of a side stand before they are shifted. -/
def unskewed (q : Quoter) (t : Tick) : Side → Float
  | .buy => t.bid + q.priceImprovement
  | .sell => t.ask - q.priceImprovement

theorem unskewed_eq_of_reset (h : q'.reset = q.reset) (side : Side) :
    q'.unskewed t side = q.unskewed t side := by
  cases side with
  | buy => rw [unskewed, priceImprovement_eq_of_reset h, unskewed]
  | sell => rw [unskewed, priceImprovement_eq_of_reset h, unskewed]

/-- The same shift lowers the quotes of both sides. -/
theorem Quoted.price_eq (quoted : q.Quoted t o) :
    o.price = q.unskewed t o.side - q.skewShift t := by
  rcases quoted.wanted with ⟨side, _, price⟩ | ⟨side, _, price⟩
  · rw [side, price]
    rfl
  · rw [side, price]
    rfl

/-- The price of an order is a number. -/
theorem Quoted.exists_denotes (quoted : q.Quoted t o) : ∃ a, Denotes o.price a := by
  rcases quoted.wanted with ⟨_, wanted, price⟩ | ⟨_, wanted, price⟩
  · obtain ⟨r, hr⟩ := isFinite_iff.1 (isPrice_bidPrice wanted).1
    exact ⟨r, price ▸ hr⟩
  · obtain ⟨_, b, _, hb, _⟩ := exists_of_lt (bidPrice_lt_askPrice wanted)
    exact ⟨b, price ▸ hb⟩

/-! ## The shift -/

/-- How far the position is from its target. -/
def distance (q : Quoter) : ℤ :=
  q.position.toInt - q.settings.inventoryTarget.toInt

/-- The distance from the target is a word. -/
def InReach (q : Quoter) : Prop :=
  Int64.minValue.toInt ≤ q.distance ∧ q.distance ≤ Int64.maxValue.toInt

/-- What quotes may lean by: there is room for a position, and the spread is not negative. -/
structure Leans (q : Quoter) (t : Tick) : Prop where
  room : 0 < q.settings.maxPosition
  reach : q.InReach
  spread : isNonNegative q.settings.spread = true
  market : t.hasMarket = true

theorem Leans.denotes_skew (h : q.Leans t) : ∃ m : ℝ, 0 < m ∧
    m = nearest q.settings.maxPosition.toInt ∧ Denotes q.skew (round ((nearest q.distance / m : ℝ))) := by
  have positive : 1 ≤ q.settings.maxPosition.toInt := Int64.lt_iff_toInt_lt.1 h.room
  have divisor : 0 < nearest q.settings.maxPosition.toInt :=
    nearest_pos_of_one_le (by exact_mod_cast positive)
  have distance : (q.position - q.settings.inventoryTarget).toInt = q.distance :=
    Word.toInt_sub_of_range h.reach.1 h.reach.2
  have dividend := denotes_ofSigned (q.position - q.settings.inventoryTarget)
  rw [distance] at dividend
  refine ⟨_, divisor, rfl, ?_⟩
  rw [skew, QuoterSettings.isSkewed, if_pos (decide_eq_true h.room), EReal.coe_div]
  exact dividend.div (denotes_ofSigned q.settings.maxPosition) divisor.ne'

/-- A skew, times a spread and a share of it. -/
noncomputable def scaled (w v k : EReal) : EReal :=
  round (round (k * w) * v)

theorem scaled_zero (w v : EReal) : scaled w v 0 = 0 := by
  rw [scaled, zero_mul, round_zero, zero_mul, round_zero]

theorem scaled_mono {w v k k' : EReal} (hw : 0 ≤ w) (hv : 0 ≤ v) (h : k ≤ k') :
    scaled w v k ≤ scaled w v k' :=
  round_mono (mul_le_mul_of_nonneg_right (round_mono (mul_le_mul_of_nonneg_right h hw)) hv)

/-- The shift is the skew, times what is the same at every position and not negative. -/
theorem Leans.exists_of_denotes (h : q.Leans t) (ha : Denotes (q.skewShift t) a) :
    ∃ k w v, Denotes q.skew k ∧ Denotes (q.settings.spread / 10000.0 * t.mid) w ∧
      Denotes skewShare v ∧ 0 ≤ w ∧ 0 ≤ v ∧ a = scaled w v k := by
  obtain ⟨_, v, hu, hv, _, rfl⟩ := exists_of_denotes_mul ha
  obtain ⟨k, w, hk, hw, _, rfl⟩ := exists_of_denotes_mul hu
  obtain ⟨r, ten, hr⟩ := Slippage.exists_ten_thousand
  have market := h.market
  simp only [Tick.hasMarket, Bool.and_eq_true, decide_eq_true_eq] at market
  have mid : NonNegative t.mid :=
    (NonNegative.add (.of_lt market.1) (.of_lt market.2)).div denotes_two two_pos
  have spread : NonNegative (q.settings.spread / 10000.0) :=
    (NonNegative.of_le (Slippage.exists_of_isNonNegative h.spread).2).div hr ten
  have share : NonNegative skewShare := .of_le (by decide +kernel)
  exact ⟨k, w, v, hk, hw, hv, spread.mul mid w hw, share v hv, rfl⟩

/-- The shift grows with the position. -/
theorem Leans.shift_mono (h : q.Leans t) (h' : q'.Leans t) (settings : q'.settings = q.settings)
    (le : q.position ≤ q'.position) (ha : Denotes (q.skewShift t) a)
    (hb : Denotes (q'.skewShift t) b) : a ≤ b := by
  obtain ⟨k, w, v, hk, hw, hv, nonneg, share, rfl⟩ := h.exists_of_denotes ha
  obtain ⟨k', w', v', hk', hw', hv', _, _, rfl⟩ := h'.exists_of_denotes hb
  obtain ⟨m, positive, rfl, skew⟩ := h.denotes_skew
  obtain ⟨m', _, rfl, skew'⟩ := h'.denotes_skew
  rw [settings] at hw' skew'
  obtain rfl := hw.unique hw'
  obtain rfl := hv.unique hv'
  obtain rfl := hk.unique skew
  obtain rfl := hk'.unique skew'
  have further : (q.distance : ℝ) ≤ q'.distance := by
    have positions := Int64.le_iff_toInt_le.1 le
    have distances : q.distance ≤ q'.distance := by
      rw [distance, distance, settings]
      omega
    exact_mod_cast distances
  have more := div_le_div_of_nonneg_right (nearest_mono further) positive.le
  exact scaled_mono nonneg share (round_mono (EReal.coe_le_coe_iff.2 more))

/-- At the target or above it, the shift lowers. -/
theorem Leans.shift_nonneg (h : q.Leans t) (long : q.settings.inventoryTarget ≤ q.position) :
    NonNegative (q.skewShift t) := by
  intro a ha
  obtain ⟨k, w, v, hk, _, _, nonneg, share, rfl⟩ := h.exists_of_denotes ha
  obtain ⟨m, positive, _, skew⟩ := h.denotes_skew
  obtain rfl := hk.unique skew
  have above : (0 : ℝ) ≤ q.distance := by
    have positions := Int64.le_iff_toInt_le.1 long
    exact_mod_cast Int.sub_nonneg.2 positions
  have skewed := EReal.coe_nonneg.2 (div_nonneg (nearest_nonneg above) positive.le)
  rw [← scaled_zero w v]
  exact scaled_mono nonneg share (round_nonneg skewed)

/-- At the target or below it, the shift raises. -/
theorem Leans.shift_nonpos (h : q.Leans t) (short : q.position ≤ q.settings.inventoryTarget) :
    ∀ a, Denotes (q.skewShift t) a → a ≤ 0 := by
  intro a ha
  obtain ⟨k, w, v, hk, _, _, nonneg, share, rfl⟩ := h.exists_of_denotes ha
  obtain ⟨m, positive, _, skew⟩ := h.denotes_skew
  obtain rfl := hk.unique skew
  have below : (q.distance : ℝ) ≤ 0 := by
    have positions := Int64.le_iff_toInt_le.1 short
    exact_mod_cast sub_nonpos.2 positions
  have skewed := EReal.coe_nonpos.2
    (div_nonpos_of_nonpos_of_nonneg (nearest_nonpos below) positive.le)
  rw [← scaled_zero w v]
  exact scaled_mono nonneg share (round_nonpos skewed)

/-! ## The quotes -/

theorem Quoted.price_le_price {o' : Order} (quoted : q.Quoted t o) (quoted' : q'.Quoted t o')
    (h : q.Leans t) (h' : q'.Leans t) (same : q'.reset = q.reset) (le : q.position ≤ q'.position)
    (sides : o.side = o'.side) : o'.price ≤ o.price := by
  obtain ⟨c, hc⟩ := quoted.exists_denotes
  obtain ⟨c', hc'⟩ := quoted'.exists_denotes
  rw [le_iff_of_denotes hc' hc]
  rw [quoted.price_eq] at hc
  rw [quoted'.price_eq, unskewed_eq_of_reset same, ← sides] at hc'
  obtain ⟨a, b, ha, hb, rfl⟩ := exists_of_denotes_sub hc
  obtain ⟨a', b', ha', hb', rfl⟩ := exists_of_denotes_sub hc'
  obtain rfl := ha.unique ha'
  have more := h.shift_mono h' (settings_eq_of_reset same) le hb hb'
  exact round_mono (EReal.sub_le_sub le_rfl more)

theorem Quoted.price_le_unskewed (quoted : q.Quoted t o) (h : q.Leans t)
    (long : q.settings.inventoryTarget ≤ q.position) : o.price ≤ q.unskewed t o.side := by
  obtain ⟨c, hc⟩ := quoted.exists_denotes
  have price := hc
  rw [quoted.price_eq] at price
  obtain ⟨a, b, ha, _, _⟩ := exists_of_denotes_sub price
  rw [le_iff_of_denotes hc ha]
  exact le_of_denotes_sub price ha (h.shift_nonneg long)

theorem Quoted.unskewed_le_price (quoted : q.Quoted t o) (h : q.Leans t)
    (short : q.position ≤ q.settings.inventoryTarget) : q.unskewed t o.side ≤ o.price := by
  obtain ⟨c, hc⟩ := quoted.exists_denotes
  have price := hc
  rw [quoted.price_eq] at price
  obtain ⟨a, _, ha, _, _⟩ := exists_of_denotes_sub price
  rw [le_iff_of_denotes ha hc]
  exact ge_of_denotes_sub price ha (h.shift_nonpos short)

/-- The quotes of one strategy to a tick lean towards its target: the more is held, the lower they
are on either side, and they are never above where they would stand without a skew while the position
is at its target or above it, never below while it is at its target or below it. -/
theorem quotes_lean (same : q'.reset = q.reset) (accepted : q.settings.check = .ok ())
    (room : 0 < q.settings.maxPosition) (reach : q.InReach) (reach' : q'.InReach) (now now' : Int64) :
    (q.position ≤ q'.position → ∀ o ∈ (q.quote t now).1, ∀ o' ∈ (q'.quote t now').1,
      o.side = o'.side → o'.price ≤ o.price) ∧
    (q.settings.inventoryTarget ≤ q.position →
      ∀ o ∈ (q.quote t now).1, o.price ≤ q.unskewed t o.side) ∧
    (q.position ≤ q.settings.inventoryTarget →
      ∀ o ∈ (q.quote t now).1, q.unskewed t o.side ≤ o.price) := by
  have meaningful := q.settings.check_eq_ok_iff.1 accepted
  have settings := settings_eq_of_reset same
  have leans : ∀ o ∈ (q.quote t now).1, q.Leans t := fun o made =>
    ⟨room, reach, meaningful.spread, (quoted_of_mem made).market⟩
  refine ⟨?_, ?_, ?_⟩
  · intro le o made o' made' sides
    have leans' : q'.Leans t :=
      ⟨settings ▸ room, reach', settings ▸ meaningful.spread, (quoted_of_mem made').market⟩
    exact (quoted_of_mem made).price_le_price (quoted_of_mem made') (leans o made) leans' same le
      sides
  · intro long o made
    exact (quoted_of_mem made).price_le_unskewed (leans o made) long
  · intro short o made
    exact (quoted_of_mem made).unskewed_le_price (leans o made) short

/-- A quoter that is short and one that is long both quote either side of one tick, the first above
where the second does. -/
theorem quotes_lean_sample :
    let t := Sample.tick "A"
    let flat : Quoter := .new { symbol := "A", spread := 10.0 } 100 0.01
    let short : Quoter := { flat with position := -500 }
    let long : Quoter := { flat with position := 500 }
    let high := (short.quote t 1).1
    let low := (long.quote t 2).1
    high.map Order.side = [.buy, .sell] ∧ low.map Order.side = [.buy, .sell] ∧
      (∀ o ∈ high, ∀ o' ∈ low, o.side = o'.side → o'.price ≤ o.price) ∧
      (∀ o ∈ high, short.unskewed t o.side ≤ o.price) ∧
      (∀ o ∈ low, o.price ≤ long.unskewed t o.side) := by
  intro t flat short long high low
  have accepted : flat.settings.check = .ok () := by decide +kernel
  have reach : short.InReach := ⟨by decide, by decide⟩
  have reach' : long.InReach := ⟨by decide, by decide⟩
  obtain ⟨lower, -, above⟩ :=
    @quotes_lean short long t rfl accepted (by decide) reach reach' 1 2
  obtain ⟨-, below, -⟩ :=
    @quotes_lean long short t rfl accepted (by decide) reach' reach 2 1
  exact ⟨by decide +kernel, by decide +kernel, lower (by decide), above (by decide),
    below (by decide)⟩

end MarketMaker.Quoter
