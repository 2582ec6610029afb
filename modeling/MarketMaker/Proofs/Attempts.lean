import Mathlib.Data.List.Forall2
import MarketMaker.Proofs.Refusals

/-!
# What trying orders does

Orders that are tried one after the other are counted once each, as refused or as processed, and leave a
list of trades behind those there were, of some of the processed ones in the order of these
(`Replay.Tried`). The quoters count the orders that they make, whatever becomes of these: trying an order
changes none of their counts (`Replay.made?_submit`).
-/

namespace MarketMaker

namespace Quoter

/-- What a quoter makes carries the numbers after its latest, an order to buy before an order to sell. -/
inductive Numbers (q : Quoter) : List Order → UInt64 → Prop where
  | none : q.Numbers [] q.made
  | one {o : Order} (id : o.id = q.made + 1) : q.Numbers [o] (q.made + 1)
  | both {bid ask : Order} (buy : bid.side = .buy) (sell : ask.side = .sell)
      (first : bid.id = q.made + 1) (second : ask.id = q.made + 1 + 1) :
      q.Numbers [bid, ask] (q.made + 1 + 1)

theorem numbers_quote (q : Quoter) (t : Tick) (now : Int64) :
    q.Numbers (q.quote t now).1 (q.quote t now).2.made := by
  unfold quote make
  split
  · cases q.quotesBid t <;> cases q.quotesAsk t
    · exact .none
    · exact .one rfl
    · exact .one rfl
    · exact .both rfl rfl rfl rfl
  · exact .none

/-- The count goes up by the orders that are made. -/
theorem Numbers.made_eq {q : Quoter} {orders : List Order} {made : UInt64}
    (h : q.Numbers orders made) : made = q.made + .ofNat orders.length := by
  cases h with
  | none => exact (UInt64.add_zero _).symm
  | one => rfl
  | both => exact UInt64.add_assoc ..

end Quoter

namespace Replay

variable {r r' r'' : Replay} {t : Tick}

/-! ## Counts of quoters -/

/-- How many orders a symbol's quoter made, if it has one. -/
def made? (r : Replay) (symbol : String) : Option UInt64 :=
  (r.desk? symbol).map fun d => d.quoter.made

theorem quotes_eq_isSome_made? (r : Replay) (symbol : String) :
    r.quotes symbol = (r.made? symbol).isSome := by
  rw [made?, Option.isSome_map, quotes_eq_isSome]

theorem made?_submit (r : Replay) (o : Order) (now : Int64) (symbol : String) :
    (r.submit o now).2.made? symbol = r.made? symbol := by
  rcases r.submit_cases o now with ⟨_, _, hs⟩ | ⟨_, _, _, _, hs⟩ | ⟨d, t, _, hd, ht, hs⟩
  · rw [hs]
    rfl
  · rw [hs]
    rfl
  · rw [hs, made?, desk?_book]
    split
    next here =>
      rw [made?, here, (Desk.tradeOf_of_trade? ht).symbol, hd]
      rfl
    next => rfl

/-! ## Trying orders -/

/-- Whether an order would be processed. -/
def accepts (r : Replay) (o : Order) : Bool :=
  (r.refusal? o).isNone

/-- Which orders are accepted hangs on which symbols have desks, and on nothing else. -/
theorem accepts_congr (same : ∀ symbol, r'.quotes symbol = r.quotes symbol) : r'.accepts = r.accepts := by
  funext o
  have desk := same o.symbol
  rw [quotes_eq_isSome, quotes_eq_isSome] at desk
  unfold accepts refusal?
  cases orderFault? o with
  | some fault => rfl
  | none =>
    cases hd : r.desk? o.symbol <;> cases hd' : r'.desk? o.symbol <;> simp [hd, hd'] at desk ⊢

/-- What trying orders at some time makes of a replay. -/
structure Tried (r r' : Replay) (os : List Order) (now : Int64) : Prop where
  processed : r'.ordersProcessed = r.ordersProcessed + .ofNat (os.filter r.accepts).length
  rejected : r'.ordersRejected = r.ordersRejected + .ofNat (os.filter fun o => !r.accepts o).length
  total : r'.orders.orders = r.orders.orders + .ofNat (os.filter r.accepts).length
  volume : r'.orders.volume =
    r.orders.volume + .ofNat ((os.filter r.accepts).map fun o => o.quantity.toNat).sum
  trades : ∃ filled added, filled.Sublist (os.filter r.accepts) ∧
    List.Forall₂ (fun o u => Desk.TradeOf o now u) filled added ∧
      r'.trades.toList = r.trades.toList ++ added
  made : ∀ symbol, r'.made? symbol = r.made? symbol
  ticks : r'.ticksProcessed = r.ticksProcessed
  latency : r'.latency = r.latency

theorem ofNat_length_filter_append (p : Order → Bool) (os more : List Order) :
    UInt64.ofNat ((os ++ more).filter p).length =
      .ofNat (os.filter p).length + .ofNat (more.filter p).length := by
  rw [List.filter_append, List.length_append, UInt64.ofNat_add]

namespace Tried

variable {os more : List Order} {now : Int64}

theorem none (r : Replay) (now : Int64) : Tried r r [] now :=
  ⟨by simp, by simp, by simp, by simp, ⟨[], [], .refl _, .nil, by simp⟩, fun _ => rfl, rfl, rfl⟩

theorem trans (h : Tried r r' os now) (h' : Tried r' r'' more now) :
    Tried r r'' (os ++ more) now := by
  have same : r'.accepts = r.accepts := accepts_congr fun symbol => by
    rw [quotes_eq_isSome_made?, quotes_eq_isSome_made?, h.made]
  obtain ⟨filled, added, within, matched, grown⟩ := h.trades
  obtain ⟨processed, rejected, total, volume, ⟨filled', added', within', matched', grown'⟩, made, ticks,
    latency⟩ := h'
  rw [same] at processed rejected total volume within'
  refine ⟨?_, ?_, ?_, ?_, ⟨filled ++ filled', added ++ added', ?_, ?_, ?_⟩, ?_, ?_, ?_⟩
  · rw [processed, h.processed, ofNat_length_filter_append, UInt64.add_assoc]
  · rw [rejected, h.rejected, ofNat_length_filter_append, UInt64.add_assoc]
  · rw [total, h.total, ofNat_length_filter_append, UInt64.add_assoc]
  · rw [volume, h.volume, List.filter_append, List.map_append, List.sum_append, UInt64.ofNat_add,
      UInt64.add_assoc]
  · rw [List.filter_append]
    exact within.append within'
  · exact List.rel_append matched matched'
  · rw [grown', grown, List.append_assoc]
  · exact fun symbol => (made symbol).trans (h.made symbol)
  · exact ticks.trans h.ticks
  · exact latency.trans h.latency

end Tried

theorem tried_submit (r : Replay) (o : Order) (now : Int64) : Tried r (r.submit o now).2 [o] now := by
  have made := made?_submit r o now
  have times := (r.submit_times o now).1
  rcases r.submit_cases o now with
    ⟨fault, refused, hs⟩ | ⟨d, fine, _, _, hs⟩ | ⟨d, t, fine, _, ht, hs⟩
  · have bad : r.accepts o = false := by rw [accepts, refused]; rfl
    rw [hs] at made times ⊢
    refine ⟨?_, ?_, ?_, ?_, ⟨[], [], List.nil_sublist _, .nil, ?_⟩, made, rfl, times⟩ <;>
      simp [bad, reject]
  · have good : r.accepts o = true := by rw [accepts, fine]; rfl
    rw [hs] at made times ⊢
    refine ⟨?_, ?_, ?_, ?_, ⟨[], [], List.nil_sublist _, .nil, ?_⟩, made, rfl, times⟩ <;>
      simp [good, count, OrderTotals.record]
  · have good : r.accepts o = true := by rw [accepts, fine]; rfl
    have own := Desk.tradeOf_of_trade? ht
    rw [hs] at made times ⊢
    refine ⟨?_, ?_, ?_, ?_, ⟨[o], [t], ?_, .cons own .nil, ?_⟩, made, rfl, times⟩ <;>
      simp [good, count, book, OrderTotals.record]

/-- Orders that are tried one after the other are counted and traded. -/
theorem tried_submitAll (r : Replay) (orders : List Order) (now : Int64) :
    Tried r (r.submitAll orders now) orders now := by
  induction orders generalizing r with
  | nil => exact .none r now
  | cons o os ih => exact (tried_submit r o now).trans (ih _)

/-! ## Answers to ticks -/

theorem answers_of_none (hd : r.desk? t.symbol = none) : r.answers t = [] := by
  simp only [answers, hd]

theorem answers_of_finite {d : Desk} (finite : t.isFinite = true) (hd : r.desk? t.symbol = some d) :
    r.answers t = ((d.observe t).quote t).1 := by
  simp only [answers, hd, finite, if_true]

/-- The orders that answer a tick are for its symbol. -/
theorem symbol_of_mem_answers (named : r.Named) {o : Order} (h : o ∈ r.answers t) :
    o.symbol = t.symbol := by
  unfold answers at h
  split at h
  next => exact absurd h List.not_mem_nil
  next d hd =>
    split at h
    next =>
      rw [Desk.quote_orders, Desk.observe_quoter] at h
      exact (Quoter.symbol_of_mem_quote h).trans (named _ d hd)
    next => exact absurd h List.not_mem_nil

/-- The replay with the quotes that answer a tick noted by its desk. -/
def noted (r : Replay) (t : Tick) : Replay :=
  match r.desk? t.symbol with
  | none => r
  | some d => r.setDesk t.symbol ((d.observe t).quote t).2

/-- Answering a tick is noting its answers, and trying them. -/
theorem tried_respond (finite : t.isFinite = true) :
    Tried (r.noted t) (r.respond t) (r.answers t) t.timestamp := by
  cases hd : r.desk? t.symbol with
  | none =>
    rw [respond_of_none hd, answers_of_none hd, noted, hd]
    exact .none r t.timestamp
  | some d =>
    rw [respond_of_desk hd, answers_of_finite finite hd, noted, hd]
    exact tried_submitAll ..

theorem noted_eq (r : Replay) (t : Tick) : ∃ desks, r.noted t = { r with desks } := by
  unfold noted
  split
  · exact ⟨_, rfl⟩
  · exact ⟨_, rfl⟩

/-- Noting answers counts them. -/
theorem made?_noted (named : r.Named) (finite : t.isFinite = true) (symbol : String) :
    (r.noted t).made? symbol = (r.made? symbol).map
      (· + .ofNat ((r.answers t).countP fun o => o.symbol = symbol)) := by
  have others : t.symbol ≠ symbol → (r.answers t).countP (fun o => o.symbol = symbol) = 0 := by
    intro other
    refine List.countP_eq_zero.2 fun o member => ?_
    rw [symbol_of_mem_answers named member]
    simpa using other
  cases hd : r.desk? t.symbol with
  | none =>
    rw [noted, hd, answers_of_none hd]
    simp
  | some d =>
    rw [noted, hd]
    change Option.map _ ((r.setDesk _ _).desk? symbol) = _
    rw [desk?_setDesk]
    split
    next here =>
      subst here
      have own : (r.answers t).countP (fun o => o.symbol = t.symbol) = (r.answers t).length :=
        List.countP_eq_length.2 fun o member => decide_eq_true (symbol_of_mem_answers named member)
      have made := (d.quoter.numbers_quote t t.timestamp).made_eq
      rw [own, made?, hd, answers_of_finite finite hd, Option.map_some, Option.map_some,
        Option.map_some, Desk.quote_quoter, Desk.quote_orders, Desk.observe_quoter, made]
    next other =>
      rw [others (Ne.symm other), made?]
      simp [Function.comp_def]

theorem accepts_noted (named : r.Named) (finite : t.isFinite = true) :
    (r.noted t).accepts = r.accepts :=
  accepts_congr fun symbol => by
    rw [quotes_eq_isSome_made?, quotes_eq_isSome_made?, made?_noted named finite, Option.isSome_map]

/-- The replay with a tick counted. -/
def ticked (r : Replay) : Replay :=
  { r with ticksProcessed := r.ticksProcessed + 1 }

/-- A tick with finite prices is counted and answered. The answer is timed if there is a desk to give
it. -/
theorem take_eq_respond (took : Duration) (finite : t.isFinite = true) :
    r.take t took = { r.ticked.respond t with
      latency := if r.quotes t.symbol then r.latency.record took else r.latency } := by
  have times := (r.ticked.respond_times t).1
  rw [take_of_finite took finite]
  change (if r.quotes t.symbol then (r.ticked.respond t).timed took else r.ticked) = _
  split
  next => rw [timed, times]; rfl
  next unquoted =>
    have none : r.desk? t.symbol = none := by simpa [quotes_eq_isSome] using unquoted
    rw [respond_of_none (r := r.ticked) none]
    rfl

/-- After a tick, a quoter has made as many orders more as the tick was answered with. -/
theorem made?_take (named : r.Named) (t : Tick) (took : Duration) (symbol : String) :
    (r.take t took).made? symbol = (r.made? symbol).map
      (· + .ofNat ((r.answers t).countP fun o => o.symbol = symbol)) := by
  cases finite : t.isFinite with
  | false =>
    rw [take_of_not_finite took finite, answers_of_not_finite finite]
    simp
  | true =>
    have noted := made?_noted (r := r.ticked) named finite symbol
    rw [take_eq_respond took finite]
    exact ((tried_respond (r := r.ticked) finite).made symbol).trans noted

end Replay

end MarketMaker
