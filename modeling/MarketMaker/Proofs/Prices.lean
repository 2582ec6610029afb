import MarketMaker.Proofs.Atomicity
import MarketMaker.Proofs.Matching
import MarketMaker.Proofs.Reached
import MarketMaker.Proofs.Registration
import MarketMaker.Proofs.Slippage
import MarketMaker.Proofs.Validation

/-!
# The prices of trades

A trade is at a matched price, which is finite and positive, less or more what slippage takes of it.
Slippage has no upper bound: from a fraction of one on, a sale is at no positive price and so costs
cash (`Session.trades_priced`, `Session.sale_costs`). Below one, and away from underflow and overflow,
every price is finite and positive, so that sales raise cash and purchases cost it.
-/

namespace MarketMaker

open Double

/-! ## Cash -/

namespace Trade

variable {t : Trade}

theorem one_le_toFloat {n : UInt64} (h : n ≠ 0) : ∃ a, Denotes n.toFloat a ∧ 1 ≤ a := by
  have counted : (1 : ℝ) ≤ n.toNat := by
    have positive : 0 < n.toNat := Nat.pos_of_ne_zero fun zero => h (UInt64.toNat_inj.1 zero)
    exact_mod_cast positive
  refine ⟨_, denotes_toFloat n, ?_⟩
  have rounded := round_mono (EReal.coe_le_coe_iff.2 counted)
  rwa [denotes_one.round_eq] at rounded

/-- What a trade at a positive price amounts to. -/
theorem exists_notional (nonzero : t.quantity ≠ 0) (positive : 0.0 < t.price) :
    ∃ a, Denotes t.notional a ∧ 0 < a := by
  obtain ⟨n, hn, atLeast⟩ := one_le_toFloat nonzero
  obtain ⟨_, p, zero, hp, above⟩ := exists_of_lt positive
  obtain rfl := zero.unique denotes_zero_literal
  have counted : 0 < n := zero_lt_one.trans_le atLeast
  refine ⟨_, hn.mul hp (not_noProduct_of_ne counted.ne' above.ne'), above.trans_le ?_⟩
  calc p = round p := hp.round_eq.symm
    _ ≤ round (n * p) := round_mono (le_mul_of_one_le_left above.le atLeast)

theorem cashFlow_of_sell (nonzero : t.quantity ≠ 0) (positive : 0.0 < t.price)
    (side : t.side = .sell) : 0.0 < t.cashFlow := by
  obtain ⟨a, ha, above⟩ := exists_notional nonzero positive
  have earned := ha.mul denotes_one (not_noProduct_of_ne above.ne' one_ne_zero)
  rw [EReal.coe_one, mul_one, ha.round_eq] at earned
  rw [cashFlow, side]
  exact (lt_iff_of_denotes denotes_zero_literal earned).2 above

theorem cashFlow_of_buy (nonzero : t.quantity ≠ 0) (positive : 0.0 < t.price)
    (side : t.side = .buy) : t.cashFlow < 0.0 := by
  obtain ⟨a, ha, above⟩ := exists_notional nonzero positive
  have minus : -((1 : ℝ) : EReal) ≠ 0 := by simp
  have paid := ha.mul denotes_one.neg (not_noProduct_of_ne above.ne' minus)
  rw [EReal.coe_one, mul_neg, mul_one, ha.neg.round_eq] at paid
  rw [cashFlow, side]
  exact (lt_iff_of_denotes paid denotes_zero_literal).2 (by simpa using above)

end Trade

/-! ## Matched prices -/

/-- A finite price above zero. -/
def IsPrice (x : Float) : Prop :=
  x.isFinite = true ∧ 0.0 < x

/-- What is not at most zero is a price, if it is finite. -/
theorem isPrice_of_not_le {x : Float} (finite : x.isFinite = true) (h : ¬x ≤ 0.0) : IsPrice x :=
  ⟨finite, lt_of_not_le (isNaN_of_isFinite finite) (by decide +kernel) h⟩

namespace Fill

variable {tolerance : Float} {book : TopOfBook} {o : Order} {fill : Fill}

theorem takes_of_match? (h : match? tolerance o book = some fill) :
    o.side.Takes (book.touch o.side) := by
  cases kind : o.kind with
  | market => exact ((match?_market kind).1 h).1
  | limit => exact ((match?_limit kind).1 h).1

/-- Orders fill against prices, if the bid that sales fill against is finite. -/
theorem isPrice_touch (finite : o.side = .sell → book.bid.price.isFinite = true)
    (h : match? tolerance o book = some fill) : IsPrice (book.touch o.side) := by
  have there := takes_of_match? h
  cases side : o.side with
  | buy =>
    rw [side] at there
    exact ⟨there.2, there.1⟩
  | sell =>
    rw [side] at there
    exact isPrice_of_not_le (finite side) there

/-- Orders fill at the touch or at their limit. -/
theorem isPrice_of_match? (limit : o.kind = .limit → IsPrice o.price)
    (finite : o.side = .sell → book.bid.price.isFinite = true)
    (h : match? tolerance o book = some fill) : IsPrice fill.price := by
  have touch := isPrice_touch finite h
  cases kind : o.kind with
  | market =>
    obtain ⟨-, rfl⟩ := (match?_market kind).1 h
    exact touch
  | limit =>
    obtain ⟨-, ⟨-, rfl⟩ | ⟨-, -, rfl⟩⟩ := (match?_limit kind).1 h
    · exact touch
    · exact limit kind

end Fill

/-! ## Volatility -/

namespace VolatilityGauge

/-- What a gauge keeps of its source. -/
def FollowsSource (g : VolatilityGauge) : VolatilitySource → Prop
  | .fixed value => g = .fixed value
  | .rolling _ fallback => ∃ w, g = .rolling w fallback

theorem followsSource_ofSource (source : VolatilitySource) : (ofSource source).FollowsSource source := by
  cases source with
  | fixed value => rfl
  | rolling window fallback => exact ⟨_, rfl⟩

theorem FollowsSource.observe {g : VolatilityGauge} {source : VolatilitySource}
    (h : g.FollowsSource source) (mid : Float) : (g.observe mid).FollowsSource source := by
  cases source with
  | fixed value =>
    obtain rfl : g = .fixed value := h
    rfl
  | rolling window fallback =>
    obtain ⟨w, rfl⟩ := h
    exact ⟨_, rfl⟩

/-- The figure of a gauge is no number or not negative. -/
theorem FollowsSource.nonNegative {g : VolatilityGauge} {source : VolatilitySource}
    (h : g.FollowsSource source) (meaningful : source.Meaningful) : NonNegative g.current := by
  cases source with
  | fixed value =>
    obtain rfl : g = .fixed value := h
    exact .of_le (Slippage.exists_of_isNonNegative meaningful).2
  | rolling window fallback =>
    obtain ⟨w, rfl⟩ := h
    change NonNegative (w.volatility?.getD fallback)
    cases deviation : w.volatility? with
    | none => exact .of_le (Slippage.exists_of_isNonNegative meaningful.2).2
    | some v =>
      unfold ReturnWindow.volatility? at deviation
      split at deviation
      · exact absurd deviation (by simp)
      · simp only at deviation
        obtain rfl := Option.some.inj deviation
        rw [Option.getD_some]
        split
        · exact .of_le (by decide +kernel)
        · exact nonNegative_sqrt _

end VolatilityGauge

/-! ## Trades -/

/-- How the price of a trade came about. -/
structure Trade.Slipped (s : EngineSettings) (t : Trade) : Prop where
  quantity : t.quantity ≠ 0
  matched : ∃ p, IsPrice p ∧ t.price = Slippage.apply t.side p t.slippage
  fraction : ∃ o g, g.FollowsSource s.volatility ∧
    t.slippage = Slippage.fraction s.baseSlippage o (VolatilityGauge.current g)

/-- What a desk keeps that prices depend on. -/
structure Desk.Sound (s : EngineSettings) (d : Desk) : Prop where
  bid : d.book.bid.price.isFinite = true
  gauge : d.volatility.FollowsSource s.volatility

namespace Desk

variable {s : EngineSettings} {d : Desk}

theorem sound_new (q : Quoter) : (new s.volatility q).Sound s where
  bid := show (0.0 : Float).isFinite = true by decide +kernel
  gauge := VolatilityGauge.followsSource_ofSource _

theorem Sound.observe (h : d.Sound s) {t : Tick} (finite : t.isFinite = true) :
    (d.observe t).Sound s where
  bid := (Bool.and_eq_true_iff.1 finite).1
  gauge := by
    unfold Desk.observe
    simp only
    split
    · exact h.gauge.observe _
    · exact h.gauge

theorem Sound.slipped (h : d.Sound s) {o : Order} {now : Int64} {t : Trade}
    (quantity : o.quantity ≠ 0) (limit : o.kind = .limit → IsPrice o.price)
    (ht : d.trade? s o now = some t) : t.Slipped s := by
  obtain ⟨fill, matched, rfl⟩ := Option.map_eq_some_iff.1 ht
  have price := Fill.isPrice_of_match? limit (fun _ => h.bid) matched
  exact ⟨quantity, ⟨fill.price, price, rfl⟩, o, d.volatility, h.gauge, rfl⟩

end Desk

namespace Replay

/-- Every desk is sound, and every trade was slipped. -/
structure Priced (s : EngineSettings) (r : Replay) : Prop where
  settings : r.settings = s
  desks : ∀ symbol d, r.desk? symbol = some d → d.Sound s
  trades : ∀ t ∈ r.trades, t.Slipped s

variable {s : EngineSettings} {start r : Replay}

theorem priced_setDesk (h : r.Priced s) (symbol : String) {d : Desk} (sound : d.Sound s) :
    (r.setDesk symbol d).Priced s where
  settings := h.settings
  desks := by
    intro other d' hd
    rw [desk?_setDesk] at hd
    split at hd
    · obtain rfl := Option.some.inj hd
      exact sound
    · exact h.desks other d' hd
  trades := h.trades

theorem priced_book (h : r.Priced s) {d : Desk} {t : Trade} (sound : d.Sound s)
    (slipped : t.Slipped s) : (r.book d t).Priced s where
  settings := h.settings
  desks := by
    intro symbol d' hd
    rw [desk?_book] at hd
    split at hd
    · obtain rfl := Option.some.inj hd
      exact ⟨sound.bid, sound.gauge⟩
    · exact h.desks symbol d' hd
  trades := by
    intro t' member
    rcases Array.mem_push.1 member with known | rfl
    · exact h.trades t' known
    · exact slipped

theorem priced_submit (h : r.Priced s) (o : Order) (now : Int64) :
    (r.submit o now).2.Priced s := by
  rcases r.submit_cases o now with ⟨_, _, hs⟩ | ⟨_, _, _, _, hs⟩ | ⟨d, t, accepted, hd, ht, hs⟩
  · rw [hs]
    exact ⟨h.settings, h.desks, h.trades⟩
  · rw [hs]
    exact ⟨h.settings, h.desks, h.trades⟩
  · rw [hs]
    have faultless : ¬(r.refusal? o).isSome := by simp [accepted]
    rw [refusal?_isSome_iff, not_or, not_or] at faultless
    have limit : o.kind = .limit → IsPrice o.price := fun kind =>
      not_not.1 fun bad => faultless.2.1 ⟨kind, bad⟩
    have sound := h.desks o.symbol d hd
    rw [h.settings] at ht
    have counted : (r.count o (d.valuePrice o)).Priced s := ⟨h.settings, h.desks, h.trades⟩
    exact priced_book counted sound (sound.slipped faultless.1 limit ht)

theorem priced_addQuoter {r' : Replay} {q : Quoter} (h : r.Priced s)
    (added : r.addQuoter q = .ok r') : r'.Priced s := by
  obtain ⟨_, rfl⟩ := addQuoter_ok added
  refine ⟨h.settings, ?_, h.trades⟩
  intro symbol d hd
  rw [desk?_addQuoter added] at hd
  split at hd
  · obtain rfl := Option.some.inj hd
    rw [h.settings]
    exact Desk.sound_new q
  · exact h.desks symbol d hd

theorem priced_empty (s : EngineSettings) : (empty s).Priced s where
  settings := rfl
  desks := by
    intro symbol d hd
    exact absurd hd (by simp [desk?, empty, Table.find?_empty])
  trades := by
    intro t member
    exact absurd member (by simp [empty])

theorem priced_reset (h : r.Priced s) : r.reset.Priced s where
  settings := h.settings
  desks := by
    intro symbol d hd
    rw [desk?_reset] at hd
    obtain ⟨_, _, rfl⟩ := Option.map_eq_some_iff.1 hd
    rw [h.settings]
    exact Desk.sound_new _
  trades := (priced_empty s).trades

theorem priced_new {quoters : List QuoterSettings} (h : Replay.new s quoters = .ok r) :
    r.Priced s :=
  induct_new h (priced_empty s) fun _ _ _ _ priced added => priced_addQuoter priced added

/-- Every step on the way keeps it. -/
theorem Reached.priced (reached : Reached start r) (h : start.Priced s) : r.Priced s := by
  induction reached with
  | start => exact h
  | accept _ ih => exact ⟨ih.settings, ih.desks, ih.trades⟩
  | quote _ finite hd ih =>
    have observed := (ih.desks _ _ hd).observe finite
    exact priced_setDesk ih _ ⟨observed.bid, observed.gauge⟩
  | submit _ o now ih => exact priced_submit ih o now
  | timed _ _ ih => exact ⟨ih.settings, ih.desks, ih.trades⟩
  | elapse _ _ ih => exact ⟨ih.settings, ih.desks, ih.trades⟩
  | addQuoter _ _ added ih => exact priced_addQuoter ih added
  | reset _ ih => exact priced_reset ih

end Replay

namespace Trade.Slipped

variable {s : EngineSettings} {t : Trade}

theorem nonNegative (h : t.Slipped s) (meaningful : s.Meaningful) : NonNegative t.slippage := by
  obtain ⟨o, g, follows, slippage⟩ := h.fraction
  rw [slippage]
  exact Slippage.nonNegative_fraction (.of_le (Slippage.exists_of_isNonNegative meaningful.baseSlippage).2)
    (follows.nonNegative meaningful.volatility) o

/-- At a fixed volatility, the largest order bounds the slippage of all. -/
theorem lt_one (h : t.Slipped s) (meaningful : s.Meaningful) {v : Float}
    (fixed : s.volatility = .fixed v) (below : Slippage.largest s.baseSlippage v < 1.0) :
    t.slippage < 1.0 := by
  obtain ⟨o, g, follows, slippage⟩ := h.fraction
  rw [fixed] at follows
  obtain rfl : g = .fixed v := follows
  have source := meaningful.volatility
  rw [fixed] at source
  have rate : NonNegative s.baseSlippage :=
    .of_le (Slippage.exists_of_isNonNegative meaningful.baseSlippage).2
  have noise : NonNegative v := .of_le (Slippage.exists_of_isNonNegative source).2
  have finite := (Slippage.partial_of_nonNegative (Slippage.nonNegative_largest rate noise) below).isFinite
  rw [slippage]
  exact lt_of_le_of_lt (Slippage.fraction_le_largest rate noise finite o) below

/-- What a trade comes to whose slippage leaves something of its price. -/
theorem sound (h : t.Slipped s) {p : Float} (price : t.price = Slippage.apply t.side p t.slippage)
    (ordinary : Slippage.Ordinary p) (remains : Slippage.Partial t.slippage) :
    IsPrice t.price ∧ (t.side = .sell → t.price ≤ p ∧ 0.0 < t.cashFlow) ∧
      (t.side = .buy → p ≤ t.price ∧ t.cashFlow < 0.0) := by
  have positive : 0.0 < p := Double.lt_of_lt_of_le (by decide +kernel) ordinary.1
  cases side : t.side with
  | buy =>
    rw [side] at price
    obtain ⟨finite, above⟩ := Slippage.apply_buy ordinary remains
    rw [← price] at finite above
    have sound : IsPrice t.price := ⟨finite, Double.lt_of_lt_of_le positive above⟩
    exact ⟨sound, (fun h => absurd h (by simp)), fun _ => ⟨above, cashFlow_of_buy h.quantity sound.2 side⟩⟩
  | sell =>
    rw [side] at price
    obtain ⟨finite, some, below⟩ := Slippage.apply_sell ordinary remains
    rw [← price] at finite some below
    exact ⟨⟨finite, some⟩, (fun _ => ⟨below, cashFlow_of_sell h.quantity some side⟩), fun h => absurd h (by simp)⟩

end Trade.Slipped

namespace Session

open Replay

variable {σ : Type} [Cache.Store σ]

/-- **Trades are at positive prices, as long as slippage leaves something.** Every trade is at a
matched price, finite and positive, less or more its slippage, which is not negative. Below one, and
where the matched price is ordinary, the price is finite and positive: a sale raises cash and is at no
more than the matched price, a purchase costs cash and is at no less. From one on, a sale is at no
positive price. Which it is can be told from the settings if volatility is fixed. -/
theorem trades_priced {settings : Settings} {cache : σ} {s : Session σ}
    (started : start settings cache = .ok s) {r : Replay} (reached : s.replay.Reached r) {t : Trade}
    (member : t ∈ r.trades) :
    ∃ p, IsPrice p ∧ t.price = Slippage.apply t.side p t.slippage ∧ ¬t.slippage < 0.0 ∧
      (t.slippage < 1.0 → Slippage.Ordinary p → IsPrice t.price ∧
        (t.side = .sell → t.price ≤ p ∧ 0.0 < t.cashFlow) ∧
        (t.side = .buy → p ≤ t.price ∧ t.cashFlow < 0.0)) ∧
      (1.0 ≤ t.slippage → t.side = .sell → t.price ≤ 0.0) ∧
      ∀ v, settings.engine.volatility = .fixed v →
        Slippage.largest settings.engine.baseSlippage v < 1.0 → t.slippage < 1.0 := by
  obtain ⟨checked, replayed⟩ := start_ok started
  have meaningful := Settings.engine_meaningful checked
  have slipped := (reached.priced (priced_new replayed)).trades t member
  have nonneg := slipped.nonNegative meaningful
  obtain ⟨p, matched, price⟩ := slipped.matched
  refine ⟨p, matched, price, nonNegative_iff.1 nonneg, ?_, ?_, ?_⟩
  · intro below ordinary
    exact slipped.sound price ordinary (Slippage.partial_of_nonNegative nonneg below)
  · intro whole side
    rw [price, side]
    exact Slippage.apply_sell_nonpos matched.1 matched.2 whole
  · intro v fixed below
    exact slipped.lt_one meaningful fixed below

/-- A sale after a tick, at the standard settings. -/
theorem trades_priced_sample :
    ∃ r t p, Sample.session.replay.Reached r ∧ t ∈ r.trades ∧ t.side = .sell ∧ IsPrice p ∧
      t.price = Slippage.apply t.side p t.slippage ∧ ¬t.slippage < 0.0 ∧ t.slippage < 1.0 := by
  have fresh : ∀ op ∈ Sample.operations, op.IsFresh := by
    simp [Sample.operations, Operation.IsFresh, Quoter.IsFresh, Quoter.new]
  have reached := reached_after fresh .start Sample.clock (s := Sample.session)
  have sold : ((Sample.session.after Sample.operations Sample.clock).replay.trades.back?).map
      Trade.side = some .sell := by
    decide +kernel
  obtain ⟨t, last, side⟩ := Option.map_eq_some_iff.1 sold
  have member := Array.mem_of_back? last
  obtain ⟨p, matched, price, nonneg, _, _, bounded⟩ := trades_priced Sample.started reached member
  exact ⟨_, t, p, reached, member, side, matched, price, nonneg, bounded 0.01 rfl (by decide +kernel)⟩

end Session

namespace Sample

/-- A base rate of twice the price. -/
def steepSettings : Settings :=
  { engine := { baseSlippage := 20000.0 }, quoters := [{ symbol := "AAPL", maxPosition := 0 }] }

theorem steep_isSome : (Session.start steepSettings Cache.Absent.mk).toOption.isSome := by
  decide +kernel

def steepSession : Session Cache.Absent :=
  (Session.start steepSettings Cache.Absent.mk).toOption.get steep_isSome

/-- A tick, and a sale of ten at its bid. -/
def steepSale : List Operation :=
  [.tick { tick "AAPL" with ask := 100.5 }, .order { sale "AAPL" with quantity := 10 } 2]

theorem steepStarted : Session.start steepSettings Cache.Absent.mk = .ok steepSession :=
  ok_of_toOption (Option.some_get steep_isSome).symm

end Sample

/-- A sale that is booked at a negative price, and costs cash. -/
theorem Session.sale_costs :
    Session.start Sample.steepSettings Cache.Absent.mk = .ok Sample.steepSession ∧
    ∃ t ∈ (Sample.steepSession.after Sample.steepSale Sample.clock).replay.trades,
      t.side = .sell ∧ t.price < 0.0 ∧ t.cashFlow < 0.0 := by
  have sold : ((Sample.steepSession.after Sample.steepSale Sample.clock).replay.trades.back?).map
        (fun t => (t.side, decide (t.price < 0.0), decide (t.cashFlow < 0.0))) =
      some (.sell, true, true) := by
    decide +kernel
  obtain ⟨t, last, found⟩ := Option.map_eq_some_iff.1 sold
  simp only [Prod.mk.injEq, decide_eq_true_eq] at found
  exact ⟨Sample.steepStarted, t, Array.mem_of_back? last, found⟩

end MarketMaker
