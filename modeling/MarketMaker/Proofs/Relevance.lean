import Mathlib.Data.List.Forall2
import MarketMaker.Proofs.Timing

/-!
# What decides a run

Of a tick its symbol and its two prices decide anything, and of a market order not the price. What goes
beyond that is carried along: sizes and times go into the book, times into orders, trades and the history
of profits, and the price of a market order into nothing. A replay from which all this is taken away
(`Replay.bare`) goes the way of the replay itself, through ticks and orders from which it is taken away
too, by the same clock (`Session.replay_after_bare`). So two lists of operations that agree in what is
left lead a session to states that agree in what is left (`Session.only_prices_matter`).
-/

namespace MarketMaker

/-! ## Ticks and orders -/

/-- The symbol and the two prices of a tick. -/
def Tick.bare (t : Tick) : Tick :=
  ⟨t.symbol, t.bid, t.ask, 0, 0, 0, none, none⟩

/-- An order without its time, and without the price that a market order has no use for. -/
def Order.bare (o : Order) : Order :=
  { o with price := if o.isMarket then 0.0 else o.price, timestamp := 0 }

/-- A trade without its time. -/
def Trade.undated (t : Trade) : Trade :=
  { t with timestamp := 0 }

/-- A profit without its time. -/
def PnlPoint.undated (p : PnlPoint) : PnlPoint :=
  { p with timestamp := 0 }

/-- What a quote says of prices. -/
def Quote.bare (q : Quote) : Quote :=
  ⟨⟨q.bid.price, 0⟩, ⟨q.ask.price, 0⟩, 0⟩

/-- The prices in a book. -/
def TopOfBook.bare (b : TopOfBook) : TopOfBook :=
  { b with latest := b.latest.map Quote.bare }

namespace TopOfBook

@[simp] theorem price_bid_bare (b : TopOfBook) : b.bare.bid.price = b.bid.price := by
  cases h : b.latest with
  | none => simp [bare, bid, h]
  | some q => simp [bare, bid, h, Quote.bare]

@[simp] theorem price_ask_bare (b : TopOfBook) : b.bare.ask.price = b.ask.price := by
  cases h : b.latest with
  | none => simp [bare, ask, h]
  | some q => simp [bare, ask, h, Quote.bare]

@[simp] theorem hasMarket_bare (b : TopOfBook) : b.bare.hasMarket = b.hasMarket := by
  simp [hasMarket]

@[simp] theorem mid_bare (b : TopOfBook) : b.bare.mid = b.mid := by
  simp [mid]

theorem bare_bare (b : TopOfBook) : b.bare.bare = b.bare := by
  simp only [bare, Option.map_map]
  rfl

@[simp] theorem touch_bare (b : TopOfBook) (side : Side) : b.bare.touch side = b.touch side := by
  cases side with
  | buy => exact b.price_ask_bare
  | sell => exact b.price_bid_bare

end TopOfBook

theorem Fill.match?_bare (tolerance : Float) (o : Order) (b : TopOfBook) :
    Fill.match? tolerance o.bare b.bare = Fill.match? tolerance o b := by
  obtain ⟨id, symbol, side, kind, quantity, price, timestamp⟩ := o
  cases side <;> cases kind <;> simp [match?, buy?, sell?, Order.bare, Order.isMarket]

theorem Quoter.make_bare (q : Quoter) (wanted : Bool) (side : Side) (price : Float) (now : Int64) :
    q.make wanted side price 0 =
      ((q.make wanted side price now).1.map Order.bare, (q.make wanted side price now).2) := by
  cases wanted with
  | false => rfl
  | true => rfl

/-- A quoter looks at the prices of a tick, and at the time for its orders alone. -/
theorem Quoter.quote_bare (q : Quoter) (t : Tick) (now : Int64) :
    q.quote t.bare 0 = ((q.quote t now).1.map Order.bare, (q.quote t now).2) := by
  change (if t.hasMarket then
      let bids := q.make (q.quotesBid t) .buy (q.bidPrice t) 0
      let asks := bids.2.make (q.quotesAsk t) .sell (q.askPrice t) 0
      (bids.1 ++ asks.1, asks.2)
    else ([], q)) = _
  unfold quote
  split
  · simp only [q.make_bare (q.quotesBid t) .buy (q.bidPrice t) now,
      Quoter.make_bare _ (q.quotesAsk t) .sell (q.askPrice t) now, List.map_append]
  · rfl

/-! ## Desks -/

/-- A desk with a book of prices alone. -/
def Desk.bare (d : Desk) : Desk :=
  { d with book := d.book.bare }

namespace Desk

theorem observe_bare (d : Desk) (t : Tick) : (d.observe t).bare = d.bare.observe t.bare := rfl

theorem quote_bare (d : Desk) (t : Tick) :
    d.bare.quote t.bare = ((d.quote t).1.map Order.bare, (d.quote t).2.bare) := by
  have made := d.quoter.quote_bare t t.timestamp
  change ((d.quoter.quote t.bare 0).1, { d.bare with quoter := (d.quoter.quote t.bare 0).2 }) = _
  rw [made]
  rfl

theorem valuePrice_bare (d : Desk) (o : Order) : d.bare.valuePrice o.bare = d.valuePrice o := by
  have touch : d.bare.book.touch o.bare.side = d.book.touch o.side := d.book.touch_bare o.side
  have kind : o.bare.isMarket = o.isMarket := rfl
  unfold valuePrice
  rw [touch, kind]
  cases h : o.isMarket with
  | false => simp [Order.bare, h]
  | true => rfl

/-- An order fills at the same price at any time. -/
theorem trade?_bare (s : EngineSettings) (d : Desk) (o : Order) (now : Int64) :
    d.bare.trade? s o.bare 0 = (d.trade? s o now).map Trade.undated := by
  unfold trade?
  change (Fill.match? s.fillTolerance o.bare d.book.bare).map _ = _
  rw [Fill.match?_bare, Option.map_map]
  rfl

end Desk

/-! ## Replays -/

/-- A ledger without the times of its history. -/
def Ledger.undated (l : Ledger) : Ledger :=
  { l with history := l.history.map PnlPoint.undated }

theorem Ledger.pnl_undated (l : Ledger) : l.undated.pnl = l.pnl := by
  unfold pnl undated
  rw [Array.back?_map]
  cases l.history.back? with
  | none => rfl
  | some p => rfl

theorem Ledger.book_undated (l : Ledger) (t : Trade) :
    l.undated.book t.undated = (l.book t).undated := by
  unfold book
  rw [pnl_undated]
  simp only [undated, Array.map_push]
  rfl

namespace Replay

variable {r : Replay}

/-- A replay that knows no sizes and no times but those measured. -/
def bare (r : Replay) : Replay :=
  { r with
    desks := r.desks.map fun _ d => d.bare
    ledger := r.ledger.undated
    trades := r.trades.map Trade.undated }

theorem desk?_bare (r : Replay) (symbol : String) :
    r.bare.desk? symbol = (r.desk? symbol).map Desk.bare :=
  Table.find?_map ..

theorem desk?_bare_of_desk {symbol : String} {d : Desk} (hd : r.desk? symbol = some d) :
    r.bare.desk? symbol = some d.bare := by
  rw [desk?_bare, hd]
  rfl

theorem quotes_bare (r : Replay) (symbol : String) : r.bare.quotes symbol = r.quotes symbol :=
  Table.contains_map ..

theorem setDesk_bare (r : Replay) (symbol : String) (d : Desk) :
    r.bare.setDesk symbol d.bare = (r.setDesk symbol d).bare := by
  simp only [bare, setDesk, Table.map_insert]

theorem book_bare (r : Replay) (d : Desk) (t : Trade) :
    r.bare.book d.bare t.undated = (r.book d t).bare := by
  have desks : (r.desks.insert t.symbol (d.onTrade t)).map (fun _ d => d.bare) =
      (r.desks.map fun _ d => d.bare).insert t.symbol (d.bare.onTrade t.undated) :=
    Table.map_insert ..
  simp only [bare, book, desks, Ledger.book_undated, Array.map_push]
  rfl

theorem orderFault?_bare (o : Order) : orderFault? o.bare = orderFault? o := by
  obtain ⟨id, symbol, side, kind, quantity, price, timestamp⟩ := o
  cases kind with
  | market => rfl
  | limit => rfl

theorem refusal?_bare (r : Replay) (o : Order) : r.bare.refusal? o.bare = r.refusal? o := by
  have desk : r.bare.desk? o.bare.symbol = (r.desk? o.symbol).map Desk.bare := r.desk?_bare o.symbol
  unfold refusal?
  rw [orderFault?_bare, desk]
  cases orderFault? o with
  | some fault => rfl
  | none =>
    cases r.desk? o.symbol with
    | none => rfl
    | some d => rfl

/-- An order does the same at any time, and a market order at any price of its own. -/
theorem submit_bare (r : Replay) (o : Order) (now : Int64) :
    r.bare.submit o.bare 0 =
      ((r.submit o now).1.map (·.map Trade.undated), (r.submit o now).2.bare) := by
  have refusal := r.refusal?_bare o
  rcases r.submit_cases o now with
    ⟨fault, refused, hs⟩ | ⟨d, accepted, hd, ht, hs⟩ | ⟨d, t, accepted, hd, ht, hs⟩
  · rw [hs, submit_of_refused (refusal.trans refused)]
    rfl
  · have desk : r.bare.desk? o.bare.symbol = some d.bare := desk?_bare_of_desk hd
    have unmatched : d.bare.trade? r.bare.settings o.bare 0 = none :=
      (Desk.trade?_bare r.settings d o now).trans (Option.map_eq_none_iff.2 ht)
    rw [hs, submit_of_accepted (refusal.trans accepted) desk, unmatched, Desk.valuePrice_bare]
    rfl
  · have desk : r.bare.desk? o.bare.symbol = some d.bare := desk?_bare_of_desk hd
    have matched : d.bare.trade? r.bare.settings o.bare 0 = some t.undated :=
      (Desk.trade?_bare r.settings d o now).trans (Option.map_eq_some_iff.2 ⟨t, ht, rfl⟩)
    rw [hs, submit_of_accepted (refusal.trans accepted) desk, matched, Desk.valuePrice_bare]
    exact congrArg (Prod.mk _) ((r.count o (d.valuePrice o)).book_bare d t)

theorem submitAll_bare (r : Replay) (orders : List Order) (now : Int64) :
    r.bare.submitAll (orders.map Order.bare) 0 = (r.submitAll orders now).bare := by
  induction orders generalizing r with
  | nil => rfl
  | cons o os ih =>
    change (r.bare.submit o.bare 0).2.submitAll (os.map Order.bare) 0 = _
    rw [r.submit_bare o now]
    exact ih _

theorem respond_bare (r : Replay) (t : Tick) : r.bare.respond t.bare = (r.respond t).bare := by
  cases hd : r.desk? t.symbol with
  | none =>
    have none : r.bare.desk? t.bare.symbol = none := (r.desk?_bare t.symbol).trans (by rw [hd]; rfl)
    rw [respond_of_none hd, respond_of_none none]
  | some d =>
    have desk : r.bare.desk? t.bare.symbol = some d.bare := desk?_bare_of_desk hd
    rw [respond_of_desk hd, respond_of_desk desk, ← Desk.observe_bare, Desk.quote_bare]
    change (r.bare.setDesk t.symbol ((d.observe t).quote t).2.bare).submitAll _ 0 = _
    rw [setDesk_bare]
    exact submitAll_bare _ _ t.timestamp

theorem take_bare (r : Replay) (t : Tick) (took : Duration) :
    r.bare.take t.bare took = (r.take t took).bare := by
  have same : t.bare.isFinite = t.isFinite := rfl
  cases finite : t.isFinite with
  | false => rw [take_of_not_finite took finite, take_of_not_finite took (same.trans finite)]
  | true =>
    rw [take_of_finite took finite, take_of_finite took (same.trans finite)]
    have answer := Replay.respond_bare { r with ticksProcessed := r.ticksProcessed + 1 } t
    have quoted : r.bare.quotes t.bare.symbol = r.quotes t.symbol := r.quotes_bare t.symbol
    change (if r.bare.quotes t.bare.symbol then
      (Replay.respond (bare { r with ticksProcessed := r.ticksProcessed + 1 }) t.bare).timed took
      else _) = bare (if r.quotes t.symbol then _ else _)
    rw [quoted, answer]
    split
    · rfl
    · rfl

theorem addQuoter_bare (r : Replay) (q : Quoter) :
    r.bare.addQuoter q = (r.addQuoter q).map bare := by
  have known : r.bare.desks.contains q.symbol = r.desks.contains q.symbol := r.quotes_bare q.symbol
  unfold addQuoter
  rw [known, show r.bare.settings = r.settings from rfl]
  split
  · rfl
  · cases made : Desk.make? r.settings.volatility q with
    | none => rfl
    | some d =>
      obtain ⟨_, rfl⟩ := Desk.make?_eq_some_iff.1 made
      have desks : (r.desks.insert q.symbol (.new r.settings.volatility q)).map
          (fun _ d => d.bare) =
          (r.desks.map fun _ d => d.bare).insert q.symbol (.new r.settings.volatility q) :=
        Table.map_insert ..
      simp only [Except.map, bare, desks]
      rfl

theorem reset_bare (r : Replay) : r.bare.reset = r.reset.bare := by
  have desks : (r.desks.map fun _ d => d.bare).map (fun _ d => d.reset r.settings.volatility) =
      (r.desks.map fun _ d => d.reset r.settings.volatility).map fun _ d => d.bare := by
    rw [Table.map_map, Table.map_map]
    rfl
  simp only [reset, bare, desks, empty, Ledger.reset, Ledger.undated, Array.map_empty]

end Replay

/-! ## Figures -/

theorem Metrics.of_undated (trades : List Trade) (history : List PnlPoint) (a : Activity) :
    Metrics.of (trades.map Trade.undated) (history.map PnlPoint.undated) a =
      Metrics.of trades history a := by
  have pnls : (trades.map Trade.undated).map Trade.pnl = trades.map Trade.pnl := by
    rw [List.map_map]
    rfl
  have costs : (trades.map Trade.undated).map Trade.slippageCost = trades.map Trade.slippageCost := by
    rw [List.map_map]
    rfl
  have profits : (history.map PnlPoint.undated).map PnlPoint.cumulative =
      history.map PnlPoint.cumulative := by
    rw [List.map_map]
    rfl
  have volume : (trades.map Trade.undated).foldl (fun v t => v + t.quantity) 0 =
      trades.foldl (fun v t => v + t.quantity) 0 := List.foldl_map
  simp only [Metrics.of, Performance.maxDrawdown, pnls, costs, profits, volume, List.isEmpty_map,
    List.length_map]

namespace Replay

theorem unrealized_bare (r : Replay) : r.bare.unrealized = r.unrealized := by
  have entries : r.bare.desks.entries = r.desks.entries.map fun e => (e.1, e.2.bare) := rfl
  have holding : ∀ symbol, r.bare.ledger.holding symbol = r.ledger.holding symbol := fun _ => rfl
  have book : ∀ d : Desk, d.bare.book = d.book.bare := fun _ => rfl
  simp only [unrealized, entries, holding, book, List.filter_map, List.map_map, Function.comp_def,
    TopOfBook.hasMarket_bare, TopOfBook.mid_bare]

theorem metrics_bare (r : Replay) : r.bare.metrics = r.metrics := by
  have activity : r.bare.activity = r.activity := by
    unfold activity
    rw [unrealized_bare]
    rfl
  unfold metrics
  rw [activity]
  simp only [bare, Ledger.undated, Array.toList_map, Metrics.of_undated]

theorem report_bare (r : Replay) (generated : UtcTime) :
    r.bare.report generated = r.report generated := by
  unfold report
  rw [metrics_bare]
  rfl

end Replay

/-! ## Operations -/

/-- An operation without what decides nothing. -/
def Operation.bare : Operation → Operation
  | tick t => .tick t.bare
  | order o _ => .order o.bare 0
  | run ticks budget => .run (ticks.map Tick.bare) budget
  | op => op

theorem Operation.IsUntimed.bare {op : Operation} (h : op.IsUntimed) : op.bare.IsUntimed := by
  cases op <;> exact h

namespace Session

open Replay

variable {σ σ' : Type} [Cache.Store σ] [Cache.Store σ'] {s : Session σ} {s' : Session σ'}

theorem takeTick_bare (h : s'.replay = s.replay.bare) (t : Tick) (w : Readings) :
    ((s'.takeTick t.bare : StateM Readings _) w).1.replay =
        ((s.takeTick t : StateM Readings _) w).1.replay.bare ∧
      ((s'.takeTick t.bare : StateM Readings _) w).2 = ((s.takeTick t : StateM Readings _) w).2 := by
  have quoted : s.replay.bare.quotes t.bare.symbol = s.replay.quotes t.symbol := s.replay.quotes_bare _
  rw [replay_takeTick, replay_takeTick, readings_takeTick, readings_takeTick, h, take_bare, quoted]
  exact ⟨rfl, rfl⟩

theorem takeTicks_bare (budget : Option Duration) (begun : Duration) (ticks : List Tick)
    (h : s'.replay = s.replay.bare) (w : Readings) :
    ((takeTicks budget begun (ticks.map Tick.bare) s' : StateM Readings _) w).1.replay =
        ((takeTicks budget begun ticks s : StateM Readings _) w).1.replay.bare ∧
      ((takeTicks budget begun (ticks.map Tick.bare) s' : StateM Readings _) w).2 =
        ((takeTicks budget begun ticks s : StateM Readings _) w).2 := by
  induction ticks generalizing s s' w with
  | nil => exact ⟨h, rfl⟩
  | cons t ts ih =>
    rw [List.map_cons, takeTicks_cons, takeTicks_cons]
    split
    · exact ⟨h, rfl⟩
    · obtain ⟨taken, read⟩ := takeTick_bare h t w.later
      rw [read]
      exact ih taken _

/-- A step of what is left of a session is what is left of the session's step, and reads the clock as
often. -/
theorem perform_bare (h : s'.replay = s.replay.bare) (op : Operation) (w : Readings) :
    (s'.perform op.bare w).1.replay = (s.perform op w).1.replay.bare ∧
      (s'.perform op.bare w).2 = (s.perform op w).2 := by
  cases op with
  | addQuoter q =>
    refine ⟨?_, rfl⟩
    change ((s'.addQuoter q).toOption.getD s').replay =
      ((s.addQuoter q).toOption.getD s).replay.bare
    rw [replay_addQuoter, replay_addQuoter, h, addQuoter_bare]
    cases s.replay.addQuoter q with
    | error _ => rfl
    | ok _ => rfl
  | tick t => exact takeTick_bare h t w
  | order o now =>
    refine ⟨?_, rfl⟩
    change (s'.submit o.bare 0).2.replay = (s.submit o now).2.replay.bare
    rw [replay_submit, replay_submit, h, s.replay.submit_bare o now]
  | run ticks budget =>
    obtain ⟨taken, read⟩ := takeTicks_bare budget w.first ticks h w.later
    simp only [Operation.bare, perform_run, taken, read, and_true]
    rfl
  | lookUp symbol =>
    refine ⟨?_, rfl⟩
    change (s'.cachedTick symbol).2.replay = (s.cachedTick symbol).2.replay.bare
    rw [replay_cachedTick, replay_cachedTick, h]
  | reset =>
    refine ⟨?_, rfl⟩
    change s'.replay.reset = s.replay.reset.bare
    rw [h, reset_bare]

/-- By one clock, what is left of a session goes the way of the session. -/
theorem replay_after_bare (h : s'.replay = s.replay.bare) (ops : List Operation) (w : Readings) :
    (s'.after (ops.map Operation.bare) w).replay = (s.after ops w).replay.bare := by
  induction ops generalizing s s' w with
  | nil => exact h
  | cons op ops ih =>
    obtain ⟨performed, read⟩ := perform_bare h op w
    rw [List.map_cons, after_cons, after_cons, read]
    exact ih performed _

end Session

/-! ## Agreement -/

/-- Ticks of one symbol with the same prices. -/
structure Tick.Alike (t t' : Tick) : Prop where
  symbol : t.symbol = t'.symbol
  bid : t.bid = t'.bid
  ask : t.ask = t'.ask

/-- Orders that say the same, but for their times and for the prices of market orders. -/
structure Order.Alike (o o' : Order) : Prop where
  id : o.id = o'.id
  symbol : o.symbol = o'.symbol
  side : o.side = o'.side
  kind : o.kind = o'.kind
  quantity : o.quantity = o'.quantity
  price : o.kind = .limit → o.price = o'.price

/-- The same operations with ticks and orders that are alike, at any times. -/
inductive Operation.Alike : Operation → Operation → Prop where
  | addQuoter (q : Quoter) : Alike (.addQuoter q) (.addQuoter q)
  | tick {t t' : Tick} (same : t.Alike t') : Alike (.tick t) (.tick t')
  | order {o o' : Order} (same : o.Alike o') (now now' : Int64) :
      Alike (.order o now) (.order o' now')
  | run {ticks ticks' : List Tick} (same : List.Forall₂ Tick.Alike ticks ticks')
      (budget : Option Duration) : Alike (.run ticks budget) (.run ticks' budget)
  | lookUp (symbol : String) : Alike (.lookUp symbol) (.lookUp symbol)
  | reset : Alike .reset .reset

theorem map_eq_of_forall₂ {α β : Type} {R : α → α → Prop} {f : α → β}
    (h : ∀ a a', R a a' → f a = f a') {as as' : List α} (related : List.Forall₂ R as as') :
    as.map f = as'.map f := by
  have same : List.Forall₂ (· = ·) (as.map f) (as'.map f) := by
    rw [List.forall₂_map_left_iff, List.forall₂_map_right_iff]
    exact related.imp h
  rwa [List.forall₂_eq_eq_eq] at same

theorem Tick.Alike.bare_eq {t t' : Tick} (h : t.Alike t') : t.bare = t'.bare := by
  unfold Tick.bare
  rw [h.symbol, h.bid, h.ask]

theorem Order.Alike.bare_eq {o o' : Order} (h : o.Alike o') : o.bare = o'.bare := by
  obtain ⟨id, symbol, side, kind, quantity, price, timestamp⟩ := o
  obtain ⟨id', symbol', side', kind', quantity', price', timestamp'⟩ := o'
  obtain ⟨rfl, rfl, rfl, rfl, rfl, same⟩ := h
  cases kind with
  | market => rfl
  | limit =>
    obtain rfl : price = price' := same rfl
    rfl

theorem Operation.Alike.bare_eq {op op' : Operation} (h : op.Alike op') : op.bare = op'.bare := by
  cases h with
  | addQuoter q => rfl
  | tick same => exact congrArg Operation.tick same.bare_eq
  | order same now now' => exact congrArg (Operation.order · 0) same.bare_eq
  | run same budget =>
    have ticks := map_eq_of_forall₂ (f := Tick.bare) (fun _ _ h => h.bare_eq) same
    exact congrArg (Operation.run · budget) ticks
  | lookUp symbol => rfl
  | reset => rfl

/-- Replays that came to the same. Their trades and profits agree but for their times, and so do their
books but for sizes and times; their measured times are as many. -/
structure Replay.Agree (r r' : Replay) : Prop where
  trades : r.trades.map Trade.undated = r'.trades.map Trade.undated
  history : r.ledger.history.map PnlPoint.undated = r'.ledger.history.map PnlPoint.undated
  holdings : r.ledger.holdings = r'.ledger.holdings
  quoters : ∀ symbol, (r.desk? symbol).map Desk.quoter = (r'.desk? symbol).map Desk.quoter
  volatilities : ∀ symbol,
    (r.desk? symbol).map Desk.volatility = (r'.desk? symbol).map Desk.volatility
  books : ∀ symbol,
    (r.desk? symbol).map (fun d => d.book.bare) = (r'.desk? symbol).map fun d => d.book.bare
  orders : r.orders = r'.orders
  ticksProcessed : r.ticksProcessed = r'.ticksProcessed
  ordersProcessed : r.ordersProcessed = r'.ordersProcessed
  ordersRejected : r.ordersRejected = r'.ordersRejected
  samples : r.latency.size = r'.latency.size
  metrics : r.metrics.untimed = r'.metrics.untimed
  /-- An order would be answered alike, but for the time of its trade. -/
  answers : ∀ {o o' : Order}, o.Alike o' → ∀ now now' : Int64,
    (r.submit o now).1.map (·.map Trade.undated) = (r'.submit o' now').1.map (·.map Trade.undated)

/-- Replays of which the same is left, but for measured times, came to the same. -/
theorem Replay.SameButTimes.agree {r r' : Replay} (h : SameButTimes r.bare r'.bare) : Agree r r' := by
  have desks : ∀ symbol, (r.desk? symbol).map Desk.bare = (r'.desk? symbol).map Desk.bare := by
    intro symbol
    rw [← desk?_bare, ← desk?_bare, ← h.same]
    rfl
  have read : ∀ {α : Type} (f : Desk → α) symbol, (∀ d, f d.bare = f d) →
      (r.desk? symbol).map f = (r'.desk? symbol).map f := by
    intro α f symbol same
    have mapped := congrArg (Option.map f) (desks symbol)
    rw [Option.map_map, Option.map_map] at mapped
    have drop : f ∘ Desk.bare = f := funext same
    rwa [drop] at mapped
  have figures := h.metrics
  rw [metrics_bare, metrics_bare] at figures
  constructor
  case trades => exact (congrArg Replay.trades h.same).symm
  case history => exact (congrArg (fun r => r.ledger.history) h.same).symm
  case holdings => exact (congrArg (fun r => r.ledger.holdings) h.same).symm
  case quoters => exact fun symbol => read _ symbol fun _ => rfl
  case volatilities => exact fun symbol => read _ symbol fun _ => rfl
  case books => exact fun symbol => read _ symbol fun d => d.book.bare_bare
  case orders => exact (congrArg Replay.orders h.same).symm
  case ticksProcessed => exact (congrArg Replay.ticksProcessed h.same).symm
  case ordersProcessed => exact (congrArg Replay.ordersProcessed h.same).symm
  case ordersRejected => exact (congrArg Replay.ordersRejected h.same).symm
  case samples => exact h.samples
  case metrics => exact figures
  case answers =>
    intro o o' alike now now'
    have answer : ∀ (r : Replay) (o : Order) (now : Int64), (r.bare.submit o.bare 0).1 =
        (r.submit o now).1.map (·.map Trade.undated) :=
      fun r o now => congrArg Prod.fst (r.submit_bare o now)
    have untimed : (r.bare.submit o.bare 0).1 = (r'.bare.submit o.bare 0).1 := by
      have retimed := congrArg Prod.fst
        (r'.bare.submit_retimed o.bare 0 r.bare.latency r.bare.elapsed)
      rw [h.same] at retimed
      exact retimed
    rw [← answer, untimed, alike.bare_eq, answer]

namespace Session

variable {σ : Type} [Cache.Store σ]

/-- **Symbols and prices decide everything.** Two lists of operations that differ at most in the sizes
and the times of ticks, in the trades that ticks carry, in the times of orders and in the prices of market
orders take a session, in whatever state it is, to the same trades and profits but for their times, and
to the same holdings, quoters, order totals, counts and metrics. By one clock they also end with the same
times measured, and with the same report. By two clocks they agree but for measured times, as long as no
run has a budget. -/
theorem only_prices_matter (s : Session σ) {ops ops' : List Operation}
    (alike : List.Forall₂ Operation.Alike ops ops') :
    (∀ w, let r := (s.after ops w).replay
      let r' := (s.after ops' w).replay
      r.Agree r' ∧ r.latency = r'.latency ∧ r.elapsed = r'.elapsed ∧
        ∀ generated, r.report generated = r'.report generated) ∧
    ((∀ op ∈ ops, op.IsUntimed) → ∀ w w',
      (s.after ops w).replay.Agree (s.after ops' w').replay) := by
  have same := map_eq_of_forall₂ (f := Operation.bare) (fun _ _ h => h.bare_eq) alike
  -- What is left of the session goes by what is left of either list.
  let left : Session σ := { s with replay := s.replay.bare }
  have goes : ∀ ops w, (left.after (ops.map Operation.bare) w).replay = (s.after ops w).replay.bare :=
    fun ops w => replay_after_bare rfl ops w
  constructor
  · intro w r r'
    have bare : r.bare = r'.bare := by
      rw [← goes ops, ← goes ops', same]
    have latency : r.bare.latency = r'.bare.latency := by rw [bare]
    have elapsed : r.bare.elapsed = r'.bare.elapsed := by rw [bare]
    refine ⟨Replay.SameButTimes.agree ?_, latency, elapsed, fun generated => ?_⟩
    · rw [bare]
      exact .refl _
    · rw [← Replay.report_bare, bare, Replay.report_bare]
  · intro untimed w w'
    apply Replay.SameButTimes.agree
    rw [← goes ops, ← goes ops', ← same]
    refine sameButTimes_after (.refl _) ?_ w w'
    exact List.forall_mem_map.2 fun op member => (untimed op member).bare

end Session

namespace Sample

/-- A tick at another time, with no size asked and with a trade seen elsewhere. -/
def tickAnew : Tick :=
  { tick "A" with askSize := 0, timestamp := -5, tradePrice := some 7.0 }

/-- A market order with a price that it has no use for. -/
def saleAnew : Order :=
  { sale "A" with price := -1.0, timestamp := 9 }

theorem tick_alike : (tick "A").Alike tickAnew := ⟨rfl, rfl, rfl⟩

theorem sale_alike : (sale "A").Alike saleAnew :=
  ⟨rfl, rfl, rfl, rfl, rfl, fun limit => absurd limit (by decide)⟩

end Sample

/-- Three trades, at other times but the same for the rest. -/
theorem Session.only_prices_matter_sample :
    let ops : List Operation := [.run [Sample.tick "A"] none, .order (Sample.sale "A") 2]
    let ops' : List Operation := [.run [Sample.tickAnew] none, .order Sample.saleAnew 8]
    List.Forall₂ Operation.Alike ops ops' ∧ (∀ op ∈ ops, op.IsUntimed) ∧
      ∃ r r', (Sample.session.after ops Sample.clock).replay = r ∧
        (Sample.session.after ops' Sample.clock).replay = r' ∧
        r.trades.size = 3 ∧ r.trades ≠ r'.trades ∧ r.Agree r' := by
  intro ops ops'
  have alike : List.Forall₂ Operation.Alike ops ops' :=
    .cons (.run (.cons Sample.tick_alike .nil) none) (.cons (.order Sample.sale_alike 2 8) .nil)
  have untimed : ∀ op ∈ ops, op.IsUntimed := by simp [ops, Operation.IsUntimed]
  have agree := (only_prices_matter Sample.session alike).2 untimed Sample.clock Sample.clock
  refine ⟨alike, untimed, _, _, rfl, rfl, ?_, ?_, agree⟩
  · decide +kernel
  · decide +kernel

end MarketMaker
