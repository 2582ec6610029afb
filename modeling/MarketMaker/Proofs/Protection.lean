import MarketMaker.Proofs.Matching
import MarketMaker.Proofs.Prices

/-!
# What an order is protected from

A limit order is never filled at a price worse than its limit or than the touch, and what it gets
does not depend on how large the tolerance is beyond what it needs (`Session.limits_protected`). No
order fills against a touch that is no price, with one exception: a sale whose bid is no number, or
infinite (`Session.fills_at_prices`). No replay comes to such a bid, because it admits finite ticks
alone.
-/

namespace MarketMaker

open Double

namespace Fill

variable {tolerance wider : Float} {book : TopOfBook} {o o' : Order} {fill : Fill}

/-! ## Limits -/

/-- What a limit order gets that fills against a touch. -/
structure Protected (o : Order) (touch : Float) (fill : Fill) : Prop where
  limit : o.side.NoWorse fill.price o.price
  market : o.side.NoWorse fill.price touch
  crossed : fill.kind = .crossed ↔ o.side.NoWorse touch o.price
  fill_eq : fill =
    if o.side.NoWorse touch o.price then ⟨touch, .crossed⟩ else ⟨o.price, .relaxed⟩

theorem protected_of_match? (kind : o.kind = .limit) (price : o.price.isNaN = false)
    (finite : (book.touch o.side).isFinite = true) (h : match? tolerance o book = some fill) :
    fill.Protected o (book.touch o.side) := by
  have number := isNaN_of_isFinite finite
  obtain ⟨-, ⟨reached, rfl⟩ | ⟨short, -, rfl⟩⟩ := (match?_limit kind).1 h
  · exact ⟨reached, Side.noWorse_self _ number, iff_of_true rfl reached, (if_pos reached).symm⟩
  · exact ⟨Side.noWorse_self _ price, Side.noWorse_of_not number price short,
      iff_of_false (by simp) short, (if_neg short).symm⟩

/-- Where a limit order fills, one whose limit concedes more fills too. -/
theorem match?_isSome_of_noWorse (kind : o.kind = .limit) (kind' : o'.kind = .limit)
    (side : o'.side = o.side) (more : o.side.NoWorse o.price o'.price)
    (h : match? tolerance o book = some fill) : (match? tolerance o' book).isSome := by
  have within : o'.side.Takes (book.touch o'.side) ∧
      (o'.side.NoWorse (book.touch o'.side) o'.price ∨
        o'.side.NoWorse (o'.side.edge tolerance (book.touch o'.side)) o'.price) := by
    rw [side]
    obtain ⟨there, ⟨reached, -⟩ | ⟨-, near, -⟩⟩ := (match?_limit kind).1 h
    · exact ⟨there, .inl (reached.trans more)⟩
    · exact ⟨there, .inr (near.trans more)⟩
  rw [Option.isSome_iff_exists]
  by_cases reached' : o'.side.NoWorse (book.touch o'.side) o'.price
  · exact ⟨_, (match?_limit kind').2 ⟨within.1, .inl ⟨reached', rfl⟩⟩⟩
  · have near' := within.2.resolve_left reached'
    exact ⟨_, (match?_limit kind').2 ⟨within.1, .inr ⟨reached', near', rfl⟩⟩⟩

/-- More tolerance makes no difference to an order that fills. -/
theorem match?_of_wider (kind : o.kind = .limit) (finite : (book.touch o.side).isFinite = true)
    (nonneg : 0.0 ≤ tolerance) (more : tolerance ≤ wider) (below : wider < 1.0)
    (h : match? tolerance o book = some fill) : match? wider o book = some fill := by
  obtain ⟨there, reached | ⟨short, near, same⟩⟩ := (match?_limit kind).1 h
  · exact (match?_limit kind).2 ⟨there, .inl reached⟩
  · have positive := (Side.takes_iff _ finite).1 there
    have out := Side.noWorse_edge_edge o.side finite positive nonneg more below
    exact (match?_limit kind).2 ⟨there, .inr ⟨short, out.trans near, same⟩⟩

theorem kind_ne_relaxed (kind : o.kind = .limit) (finite : (book.touch o.side).isFinite = true)
    (nonneg : 0.0 ≤ tolerance) (none : tolerance ≤ 0.0) (h : match? tolerance o book = some fill) :
    fill.kind ≠ .relaxed := by
  obtain ⟨there, ⟨-, rfl⟩ | ⟨short, near, -⟩⟩ := (match?_limit kind).1 h
  · simp
  · have positive := (Side.takes_iff _ finite).1 there
    exact absurd ((Side.noWorse_touch_edge o.side finite positive nonneg none).trans near) short

/-- A finite limit that reaches a positive touch fills, whatever the tolerance. A purchase reaches no
infinite ask. -/
theorem match?_of_reached (kind : o.kind = .limit) (price : o.price.isFinite = true)
    (positive : 0.0 < book.touch o.side) (reached : o.side.NoWorse (book.touch o.side) o.price) :
    match? tolerance o book = some ⟨book.touch o.side, .crossed⟩ := by
  refine (match?_limit kind).2 ⟨?_, .inl ⟨reached, rfl⟩⟩
  cases side : o.side with
  | buy =>
    rw [side] at positive reached
    exact ⟨positive, isFinite_of_le (le_of_less positive) reached price⟩
  | sell =>
    rw [side] at positive
    exact fun nonpos => not_lt_of_le nonpos positive

end Fill

namespace Session

variable {σ : Type} [Cache.Store σ]

/-- A limit order that reaches the touch trades, in whatever state. -/
theorem submit_reached (s : Session σ) {o : Order} {d : Desk} (now : Int64)
    (kind : o.kind = .limit) (price : IsPrice o.price) (quantity : o.quantity ≠ 0)
    (hd : s.replay.desk? o.symbol = some d) (positive : 0.0 < d.book.touch o.side)
    (reached : o.side.NoWorse (d.book.touch o.side) o.price) :
    ∃ t, (s.submit o now).1 = .ok (some t) ∧
      (s.submit o now).2.replay.trades = s.replay.trades.push t ∧ Desk.TradeOf o now t ∧
      t.price = Slippage.apply o.side (d.book.touch o.side) t.slippage := by
  have accepted : s.replay.refusal? o = none := by
    rw [← Option.not_isSome_iff_eq_none, Replay.refusal?_isSome_iff]
    rintro (zero | ⟨-, bad⟩ | unknown)
    · exact quantity zero
    · exact bad price
    · simp [hd] at unknown
  have matched : Fill.match? s.replay.settings.fillTolerance o d.book =
      some ⟨d.book.touch o.side, .crossed⟩ :=
    Fill.match?_of_reached kind price.1 positive reached
  obtain ⟨t, ht⟩ : ∃ t, d.trade? s.replay.settings o now = some t := by
    rw [Desk.trade?, matched]
    exact ⟨_, rfl⟩
  have submitted := Replay.submit_of_accepted accepted hd now
  rw [ht] at submitted
  refine ⟨t, ?_, ?_, Desk.tradeOf_of_trade? ht, ?_⟩
  · rw [submit, submitted]
  · rw [replay_submit, submitted]
    rfl
  · rw [Desk.trade?, matched] at ht
    obtain rfl := Option.some.inj ht
    rfl

/-- **A limit is kept to, and more conceded never fills less.** A limit order that fills gets a price
no worse than its limit and no worse than the touch: the touch itself if it reaches it, its own limit
if not. One whose limit concedes more fills too, more tolerance changes nothing, and without
tolerance none fills short of the touch. One that reaches a positive touch fills at it, and trades if
it is submitted to a session, whatever happened there before. -/
theorem limits_protected {tolerance : Float} {book : TopOfBook} {o : Order}
    (nonneg : 0.0 ≤ tolerance) (finite : (book.touch o.side).isFinite = true)
    (kind : o.kind = .limit) (price : IsPrice o.price) :
    (∀ fill, Fill.match? tolerance o book = some fill →
      fill.Protected o (book.touch o.side) ∧
      (∀ o' : Order, o'.kind = .limit → o'.side = o.side → o.side.NoWorse o.price o'.price →
        (Fill.match? tolerance o' book).isSome) ∧
      (∀ wider, tolerance ≤ wider → wider < 1.0 → Fill.match? wider o book = some fill) ∧
      (tolerance ≤ 0.0 → fill.kind ≠ .relaxed)) ∧
    (0.0 < book.touch o.side → o.side.NoWorse (book.touch o.side) o.price →
      Fill.match? tolerance o book = some ⟨book.touch o.side, .crossed⟩) ∧
    ∀ (s : Session σ) (d : Desk) (now : Int64), o.quantity ≠ 0 →
      s.replay.desk? o.symbol = some d → 0.0 < d.book.touch o.side →
      o.side.NoWorse (d.book.touch o.side) o.price →
      ∃ t, (s.submit o now).1 = .ok (some t) ∧
        (s.submit o now).2.replay.trades = s.replay.trades.push t ∧ Desk.TradeOf o now t ∧
        t.price = Slippage.apply o.side (d.book.touch o.side) t.slippage := by
  refine ⟨?_, ?_, ?_⟩
  · intro fill h
    refine ⟨Fill.protected_of_match? kind (isNaN_of_isFinite price.1) finite h, ?_, ?_, ?_⟩
    · intro o' kind' side more
      exact Fill.match?_isSome_of_noWorse kind kind' side more h
    · intro wider more small
      exact Fill.match?_of_wider kind finite nonneg more small h
    · intro none
      exact Fill.kind_ne_relaxed kind finite nonneg none h
  · intro positive reached
    exact Fill.match?_of_reached kind price.1 positive reached
  · intro s d now quantity hd positive reached
    exact s.submit_reached now kind price quantity hd positive reached

end Session

namespace Sample

/-- An order to buy at no more than a hundred. -/
def bid : Order := ⟨1, "A", .buy, .limit, 7, 100.0, 2⟩

/-- The book after the narrow tick, whose ask is just above the limit. -/
def book : TopOfBook := (TopOfBook.empty "A").update (tick "A")

/-- A tick whose ask is below the limit. -/
def lowTick : Tick := { tick "A" with bid := 99.8, ask := 99.9 }

end Sample

/-- An order that fills at its limit, and trades at the touch once the ask has come down. -/
theorem Session.limits_protected_sample :
    (∃ fill, Fill.match? 0.001 Sample.bid Sample.book = some fill ∧ fill.kind = .relaxed ∧
      fill.Protected Sample.bid (Sample.book.touch .buy) ∧
      Fill.match? 0.5 Sample.bid Sample.book = some fill) ∧
    ∃ t, ((Sample.session.after [.tick Sample.lowTick] Sample.clock).submit Sample.bid 2).1 =
        .ok (some t) ∧
      t.price = Slippage.apply .buy 99.9 t.slippage := by
  obtain ⟨protects, -, trades⟩ :=
    @limits_protected Cache.Absent _ 0.001 Sample.book Sample.bid (by decide +kernel)
      (by decide +kernel) rfl ⟨by decide +kernel, by decide +kernel⟩
  have filled : (Fill.match? 0.001 Sample.bid Sample.book).map Fill.kind = some .relaxed := by
    decide +kernel
  obtain ⟨fill, matched, relaxed⟩ := Option.map_eq_some_iff.1 filled
  obtain ⟨within, -, wider, -⟩ := protects fill matched
  have asked : ((Sample.session.after [.tick Sample.lowTick] Sample.clock).replay.desk? "A").map
      (fun d => d.book.touch Sample.bid.side) = some 99.9 := by
    decide +kernel
  obtain ⟨d, hd, touch⟩ := Option.map_eq_some_iff.1 asked
  have positive : 0.0 < d.book.touch Sample.bid.side := by
    rw [touch]
    decide +kernel
  have reached : Sample.bid.side.NoWorse (d.book.touch Sample.bid.side) Sample.bid.price := by
    rw [touch]
    decide +kernel
  obtain ⟨t, submitted, -, -, price⟩ := trades _ d 2 (by decide) hd positive reached
  rw [touch] at price
  exact ⟨⟨fill, matched, relaxed, within, wider 0.5 (by decide +kernel) (by decide +kernel)⟩, t,
    submitted, price⟩

/-! ## Touches that are no prices -/

namespace Fill

variable {tolerance : Float} {book : TopOfBook} {o : Order} {fill : Fill}

/-- A positive bid that is not finite is above every limit. -/
theorem le_of_not_finite {p bid : Float} (finite : p.isFinite = true)
    (infinite : bid.isFinite = false) (positive : 0.0 < bid) : p ≤ bid := by
  by_contra above
  have below := lt_of_not_le (isNaN_of_isFinite finite) (numbers_of_lt positive).2 above
  have finite' := isFinite_of_le (le_of_less positive) (le_of_less below) finite
  exact absurd finite' (by simp [infinite])

/-- A sale whose bid is not finite fills at it: a market order unless the bid is minus infinity, a
limit order if it is plus infinity. -/
theorem match?_sell_of_not_finite (side : o.side = .sell)
    (limit : o.kind = .limit → IsPrice o.price) (infinite : book.bid.price.isFinite = false) :
    match? tolerance o book = some fill ↔
      (o.kind = .market ∧ ¬book.bid.price ≤ 0.0 ∧ fill = ⟨book.bid.price, .market⟩) ∨
      (o.kind = .limit ∧ 0.0 < book.bid.price ∧ fill = ⟨book.bid.price, .crossed⟩) := by
  cases kind : o.kind with
  | market => simp [match?_market kind, side, Side.Takes, TopOfBook.touch]
  | limit =>
    obtain ⟨finite, positive⟩ := limit kind
    simp only [match?_limit kind, side, Side.Takes, Side.NoWorse, TopOfBook.touch, reduceCtorEq,
      false_and, true_and, false_or]
    constructor
    · rintro ⟨there, ⟨reached, rfl⟩ | ⟨short, near, -⟩⟩
      · exact ⟨Double.lt_of_lt_of_le positive reached, rfl⟩
      · -- The edge is a number only if the bid is one, and then the limit reaches it.
        obtain ⟨_, _, -, edge, -⟩ := exists_of_le near
        obtain ⟨_, _, number, -⟩ := exists_of_denotes_mul edge
        have above := lt_of_not_le number.isNaN (by decide +kernel) there
        exact absurd (le_of_not_finite finite infinite above) short
    · rintro ⟨above, rfl⟩
      exact ⟨fun nonpos => not_lt_of_le nonpos above,
        .inl ⟨le_of_not_finite finite infinite above, rfl⟩⟩

end Fill

namespace Session

variable {σ : Type} [Cache.Store σ]

/-- **Orders fill at prices, but for sales at a bid that is not finite.** Whatever ticks a book took,
an order that fills does so against a touch that is finite and positive, and at a price that is too.
The one exception is a bid that is not finite, at which sales fill: market orders if it is no number,
and all orders if it is infinite. In the books of a replay every bid is finite, at every point. -/
theorem fills_at_prices {tolerance : Float} {book : TopOfBook} {o : Order}
    (limit : o.kind = .limit → IsPrice o.price) :
    (∀ fill, Fill.match? tolerance o book = some fill →
      (o.side = .sell → book.bid.price.isFinite = true) →
      IsPrice (book.touch o.side) ∧ IsPrice fill.price) ∧
    (o.side = .sell → book.bid.price.isFinite = false → ∀ fill,
      (Fill.match? tolerance o book = some fill ↔
        (o.kind = .market ∧ ¬book.bid.price ≤ 0.0 ∧ fill = ⟨book.bid.price, .market⟩) ∨
        (o.kind = .limit ∧ 0.0 < book.bid.price ∧ fill = ⟨book.bid.price, .crossed⟩))) ∧
    ∀ {settings : Settings} {cache : σ} {s : Session σ}, start settings cache = .ok s →
      ∀ {r : Replay}, s.replay.Reached r → ∀ symbol d, r.desk? symbol = some d →
      ∀ fill, Fill.match? tolerance o d.book = some fill →
      IsPrice (d.book.touch o.side) ∧ IsPrice fill.price := by
  refine ⟨?_, ?_, ?_⟩
  · intro fill matched finite
    exact ⟨Fill.isPrice_touch finite matched, Fill.isPrice_of_match? limit finite matched⟩
  · intro side infinite fill
    exact Fill.match?_sell_of_not_finite side limit infinite
  · intro settings cache s started r reached symbol d hd fill matched
    have priced := reached.priced (Replay.priced_new (start_ok started).2)
    have finite := (priced.desks symbol d hd).bid
    exact ⟨Fill.isPrice_touch (fun _ => finite) matched,
      Fill.isPrice_of_match? limit (fun _ => finite) matched⟩

end Session

namespace Sample

/-- A book whose bid is no number. -/
def numberless : TopOfBook := (TopOfBook.empty "A").update { tick "A" with bid := 0.0 / 0.0 }

/-- A book whose bid is infinite. -/
def infinite : TopOfBook := (TopOfBook.empty "A").update { tick "A" with bid := 1.0 / 0.0 }

end Sample

/-- A sale at a bid, a sale at none, and a session whose bid is finite. -/
theorem Session.fills_at_prices_sample :
    (∃ fill, Fill.match? 0.001 (Sample.sale "A") Sample.book = some fill ∧ IsPrice fill.price) ∧
    Fill.match? 0.001 (Sample.sale "A") Sample.numberless =
      some ⟨Sample.numberless.bid.price, .market⟩ ∧
    ∃ r d fill, Sample.session.replay.Reached r ∧ r.desk? "A" = some d ∧
      Fill.match? 0.001 (Sample.sale "A") d.book = some fill ∧ IsPrice fill.price := by
  have market : (Sample.sale "A").kind = .limit → IsPrice (Sample.sale "A").price := by
    intro kind
    exact absurd kind (by decide)
  have filled : (Fill.match? 0.001 (Sample.sale "A") Sample.book).isSome := by decide +kernel
  obtain ⟨fill, matched⟩ := Option.isSome_iff_exists.1 filled
  obtain ⟨prices, -, replays⟩ :=
    @fills_at_prices Cache.Absent _ 0.001 Sample.book (Sample.sale "A") market
  obtain ⟨-, exception, -⟩ :=
    @fills_at_prices Cache.Absent _ 0.001 Sample.numberless (Sample.sale "A") market
  have fresh : ∀ op ∈ [Operation.tick (Sample.tick "A")], op.IsFresh := by
    simp [Operation.IsFresh]
  have reached := reached_after fresh .start Sample.clock (s := Sample.session)
  have quoted : ((Sample.session.after [.tick (Sample.tick "A")] Sample.clock).replay.desk?
      "A").map (fun d => (Fill.match? 0.001 (Sample.sale "A") d.book).isSome) = some true := by
    decide +kernel
  obtain ⟨d, hd, fills⟩ := Option.map_eq_some_iff.1 quoted
  obtain ⟨fill', matched'⟩ := Option.isSome_iff_exists.1 fills
  refine ⟨⟨fill, matched, (prices fill matched (fun _ => by decide +kernel)).2⟩, ?_, _, d, fill',
    reached, hd, matched', (replays Sample.started reached "A" d hd fill' matched').2⟩
  exact (exception rfl (by decide +kernel) _).2 (.inl ⟨rfl, by decide +kernel, rfl⟩)

/-- A market order sold at no number, and an order with a limit sold at infinity. -/
theorem Fill.sold_at_no_price :
    (∃ fill, match? 0.001 (Sample.sale "A") Sample.numberless = some fill ∧
      fill.price.isNaN = true) ∧
    ∃ fill, match? 0.001 { Sample.bid with side := .sell } Sample.infinite = some fill ∧
      fill.price.isInf = true := by
  have numberless : (match? 0.001 (Sample.sale "A") Sample.numberless).map
      (fun fill => fill.price.isNaN) = some true := by
    decide +kernel
  have infinite : (match? 0.001 { Sample.bid with side := .sell } Sample.infinite).map
      (fun fill => fill.price.isInf) = some true := by
    decide +kernel
  exact ⟨Option.map_eq_some_iff.1 numberless, Option.map_eq_some_iff.1 infinite⟩

end MarketMaker
