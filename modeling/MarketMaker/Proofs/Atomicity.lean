import MarketMaker.Proofs.Trading

/-!
# Orders happen in full or not at all

An order that is refused leaves a trace in one counter, an order without a match in the totals over
orders, and an order that fills in the desk and the holding of its own symbol, the lists of trades
and of profits, and one key of the cache. This needs no history: it is so in every state of a
session.
-/

namespace MarketMaker

/-! ## Refusals -/

namespace Replay

/-- What can be wrong with an order. -/
inductive Refuses (r : Replay) (o : Order) : OrderFault → Prop
  | zeroQuantity (h : o.quantity = 0) : Refuses r o (.zeroQuantity o.id)
  | limitPrice (kind : o.kind = .limit) (h : ¬(o.price.isFinite ∧ o.price > 0.0)) :
      Refuses r o (.limitPrice o.id o.price)
  | unquoted (h : r.desk? o.symbol = none) : Refuses r o (.unquoted o.id o.symbol)

theorem badLimit_iff (o : Order) :
    (!o.isMarket && !(o.price.isFinite && decide (o.price > 0.0))) = true ↔
      o.kind = .limit ∧ ¬(o.price.isFinite ∧ o.price > 0.0) := by
  cases hk : o.kind with
  | market => simp [Order.isMarket, hk]
  | limit => cases o.price.isFinite <;> simp [Order.isMarket, hk]

/-- The fault that is told is one the order has. -/
theorem refuses_of_refusal? {r : Replay} {o : Order} {fault : OrderFault}
    (h : r.refusal? o = some fault) : r.Refuses o fault := by
  unfold refusal? at h
  split at h
  next own known =>
    obtain rfl : own = fault := by simpa using h
    unfold orderFault? at known
    split at known
    next zero =>
      obtain rfl : OrderFault.zeroQuantity o.id = own := by simpa using known
      exact .zeroQuantity zero
    next =>
      split at known
      next bad =>
        obtain rfl : OrderFault.limitPrice o.id o.price = own := by simpa using known
        obtain ⟨kind, bad⟩ := (badLimit_iff o).1 bad
        exact .limitPrice kind bad
      next => exact absurd known (by simp)
  next unknown =>
    obtain rfl : OrderFault.unquoted o.id o.symbol = fault := by simpa using h
    exact .unquoted unknown
  next => exact absurd h (by simp)

/-- An order that has a fault is refused. -/
theorem refusal?_isSome_of_refuses {r : Replay} {o : Order} {fault : OrderFault}
    (h : r.Refuses o fault) : (r.refusal? o).isSome := by
  cases h with
  | zeroQuantity zero => simp [refusal?, orderFault?, zero]
  | limitPrice kind bad =>
    have told : (orderFault? o).isSome := by
      unfold orderFault?
      split
      · rfl
      · rw [if_pos ((badLimit_iff o).2 ⟨kind, bad⟩)]
        rfl
    obtain ⟨own, known⟩ := Option.isSome_iff_exists.1 told
    simp [refusal?, known]
  | unquoted unknown =>
    unfold refusal?
    rw [unknown]
    cases orderFault? o <;> rfl

theorem refusal?_isSome_iff (r : Replay) (o : Order) :
    (r.refusal? o).isSome ↔
      o.quantity = 0 ∨ (o.kind = .limit ∧ ¬(o.price.isFinite ∧ o.price > 0.0)) ∨
        r.desk? o.symbol = none := by
  constructor
  · intro h
    obtain ⟨fault, told⟩ := Option.isSome_iff_exists.1 h
    cases refuses_of_refusal? told with
    | zeroQuantity zero => exact .inl zero
    | limitPrice kind bad => exact .inr (.inl ⟨kind, bad⟩)
    | unquoted unknown => exact .inr (.inr unknown)
  · rintro (zero | ⟨kind, bad⟩ | unknown)
    · exact refusal?_isSome_of_refuses (.zeroQuantity zero)
    · exact refusal?_isSome_of_refuses (.limitPrice kind bad)
    · exact refusal?_isSome_of_refuses (.unquoted unknown)

end Replay

/-! ## Fills -/

/-- All that a fill changes in a replay. -/
structure Replay.Filled (r : Replay) (o : Order) (d : Desk) (t : Trade) (r' : Replay) : Prop where
  processed : r'.ordersProcessed = r.ordersProcessed + 1
  orders : r'.orders = r.orders.record o (d.valuePrice o)
  trades : r'.trades = r.trades.push t
  history : r'.ledger.history = r.ledger.history.push ⟨t.timestamp, r.ledger.pnl + t.cashFlow⟩
  desk : r'.desk? o.symbol =
    some { d with quoter := { d.quoter with position := d.quoter.position + t.signedQuantity } }
  holding : r'.ledger.holdings.find? o.symbol = some ((r.ledger.holding o.symbol).book t)
  otherDesks : ∀ symbol, symbol ≠ o.symbol → r'.desk? symbol = r.desk? symbol
  otherHoldings : ∀ symbol, symbol ≠ o.symbol →
    r'.ledger.holdings.find? symbol = r.ledger.holdings.find? symbol
  settings : r'.settings = r.settings
  latency : r'.latency = r.latency
  ticks : r'.ticksProcessed = r.ticksProcessed
  rejected : r'.ordersRejected = r.ordersRejected
  elapsed : r'.elapsed = r.elapsed

theorem Replay.filled_book (r : Replay) {o : Order} {now : Int64} (d : Desk) {t : Trade}
    (h : Desk.TradeOf o now t) :
    r.Filled o d t ((r.count o (d.valuePrice o)).book d t) where
  processed := rfl
  orders := rfl
  trades := rfl
  history := rfl
  desk := by
    rw [desk?_book, if_pos h.symbol.symm]
    rfl
  holding := by
    rw [holding?_book, if_pos h.symbol.symm, h.symbol]
    rfl
  otherDesks symbol other := by
    rw [desk?_book, if_neg (h.symbol ▸ other)]
    rfl
  otherHoldings symbol other := by
    rw [holding?_book, if_neg (h.symbol ▸ other)]
    rfl
  settings := rfl
  latency := rfl
  ticks := rfl
  rejected := rfl
  elapsed := rfl

namespace Session

variable {σ : Type} [Cache.Store σ]

theorem rememberSince_size (s : Session σ) : s.rememberSince s.replay.trades.size = s := by
  unfold rememberSince
  split
  · rw [Array.extract_size_left]
    rfl
  · rfl

/-- Of one trade more the cache is told by one key, if it could be reached. -/
theorem rememberSince_push (s : Session σ) {ts : Array Trade} {t : Trade}
    (h : s.replay.trades = ts.push t) :
    s.rememberSince ts.size =
      if s.reachable then
        s.remember (Cache.tradeKey s.replay.trades.size) (Cache.tradeFields t) s.expiry.tradeExpiry
      else s := by
  unfold rememberSince
  have news : (s.replay.trades.extract ts.size).toList = [t] := by
    rw [h, Array.extract_push, if_neg (by simp), if_pos (by simp)]
    simp
  rw [news, h, Array.size_push]
  rfl

/-- **An order is refused, counted or booked.** It is refused exactly if it has no quantity, if it
has a limit that is no positive number, or if nobody quotes its symbol; then the count of refused
orders grows and nothing else changes. An order without a match is counted and valued, no more. An
order that fills changes its own symbol's desk and holding, is listed with its profit, and is told
to the cache under the one key of its number. -/
theorem submit_atomic (s : Session σ) (o : Order) (now : Int64) :
    ((∃ fault, (s.submit o now).1 = .error fault) ↔
      o.quantity = 0 ∨ (o.kind = .limit ∧ ¬(o.price.isFinite ∧ o.price > 0.0)) ∨
        s.replay.desk? o.symbol = none) ∧
    (∀ fault, (s.submit o now).1 = .error fault → s.replay.Refuses o fault ∧
      (s.submit o now).2 =
        { s with replay := { s.replay with ordersRejected := s.replay.ordersRejected + 1 } }) ∧
    ((s.submit o now).1 = .ok none → ∃ d, s.replay.desk? o.symbol = some d ∧
      (s.submit o now).2 =
        { s with replay := { s.replay with
          ordersProcessed := s.replay.ordersProcessed + 1
          orders := s.replay.orders.record o (d.valuePrice o) } }) ∧
    (∀ t, (s.submit o now).1 = .ok (some t) → ∃ d, s.replay.desk? o.symbol = some d ∧
      Desk.TradeOf o now t ∧ s.replay.Filled o d t (s.submit o now).2.replay ∧
      (s.submit o now).2.expiry = s.expiry ∧ (s.submit o now).2.reachable = s.reachable ∧
      (s.submit o now).2.cache =
        if s.reachable then
          (Cache.Store.set s.cache (Cache.tradeKey (s.submit o now).2.replay.trades.size)
            (Cache.tradeFields t) (.ofSeconds s.expiry.tradeExpiry)).2
        else s.cache) := by
  rw [← Replay.refusal?_isSome_iff, Option.isSome_iff_exists]
  unfold submit
  rcases s.replay.submit_cases o now with
    ⟨fault, refused, hs⟩ | ⟨d, accepted, hd, _, hs⟩ | ⟨d, t, accepted, hd, ht, hs⟩
  · simp only [hs, refused]
    refine ⟨⟨fun _ => ⟨fault, rfl⟩, fun _ => ⟨fault, rfl⟩⟩, ?_, by simp, by simp⟩
    intro other told
    obtain rfl : fault = other := by simpa using told
    refine ⟨Replay.refuses_of_refusal? refused, ?_⟩
    exact rememberSince_size { s with replay := s.replay.reject }
  · simp only [hs, accepted]
    refine ⟨by simp, by simp, fun _ => ⟨d, hd, ?_⟩, by simp⟩
    exact rememberSince_size { s with replay := s.replay.count o (d.valuePrice o) }
  · simp only [hs, accepted]
    refine ⟨by simp, by simp, by simp, ?_⟩
    intro other told
    obtain rfl : t = other := by simpa using told
    have ofOrder := Desk.tradeOf_of_trade? ht
    refine ⟨d, hd, ofOrder, ?_⟩
    rw [replay_rememberSince, rememberSince_push _ rfl]
    refine ⟨s.replay.filled_book d ofOrder, ?_⟩
    split
    · exact ⟨rfl, rfl, rfl⟩
    · exact ⟨rfl, rfl, rfl⟩

end Session

end MarketMaker
