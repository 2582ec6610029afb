import MarketMaker.Proofs.Attempts
import MarketMaker.Proofs.Bookkeeping

/-!
# Trades in order

Where nothing but ticks trades, each tick adds at most two trades, both of its symbol, for one lot and at
its time, and if two then a purchase and the sale that was made next (`Replay.TickTrades`). The numbers of
a symbol's trades go up and stay below its quoter's count, which goes on for quotes that come to no trade
as well (`Replay.Ascending`); and where the ticks are in order, so are the trades and the profits
(`Session.trades_in_order`).
-/

namespace MarketMaker

namespace Quoter

/-- A quoter makes two orders at most. -/
theorem Numbers.length_le {q : Quoter} {os : List Order} {made : UInt64} (h : q.Numbers os made) :
    os.length ≤ 2 := by
  cases h with
  | none => exact Nat.zero_le 2
  | one => exact Nat.le_succ 1
  | both => exact le_rfl

/-- Two orders are an order to buy and one to sell with the next number. -/
theorem Numbers.of_pair {q : Quoter} {o p : Order} {made : UInt64} (h : q.Numbers [o, p] made) :
    o.side = .buy ∧ p.side = .sell ∧ p.id = o.id + 1 := by
  cases h with
  | both buy sell first second => exact ⟨buy, sell, by rw [second, first]⟩

/-- The numbers go up from the count before to the count after, unless this leaves its range. -/
theorem Numbers.ascending {q : Quoter} {os : List Order} {made : UInt64} (h : q.Numbers os made)
    (inRange : q.made.toNat + os.length < UInt64.size) :
    (os.map Order.id).Pairwise (· < ·) ∧
      ∀ n ∈ os.map Order.id, q.made.toNat < n.toNat ∧ n.toNat ≤ q.made.toNat + os.length := by
  cases h with
  | none => exact ⟨.nil, List.forall_mem_nil _⟩
  | one id =>
    have next : (q.made + 1).toNat = q.made.toNat + 1 := Word.toNat_add_of_range inRange
    simp only [List.map_cons, List.map_nil, List.forall_mem_singleton, id, next]
    exact ⟨List.pairwise_singleton .., Nat.lt_succ_self _, le_rfl⟩
  | both _ _ first second =>
    have short : q.made.toNat + 1 + 1 < UInt64.size := inRange
    have next : (q.made + 1).toNat = q.made.toNat + 1 :=
      Word.toNat_add_of_range (b := 1) (Nat.lt_of_succ_lt short)
    have last : (q.made + 1 + 1).toNat = q.made.toNat + 1 + 1 := by
      rw [Word.toNat_add_of_range (b := 1) (by rw [next]; exact short), next]
      rfl
    simp only [List.map_cons, List.map_nil, List.forall_mem_cons, List.pairwise_cons, first, second,
      UInt64.lt_iff_toNat_lt, next, last, List.length_cons, List.length_nil]
    simp

end Quoter

namespace Replay

variable {r : Replay} {t : Tick}

/-! ## One tick -/

/-- What trades of a tick are, where lots are of some size. -/
structure TickTrades (lot : UInt64) (t : Tick) (added : List Trade) : Prop where
  few : added.length ≤ 2
  own : ∀ u ∈ added, u.symbol = t.symbol ∧ u.quantity = lot ∧ u.timestamp = t.timestamp
  pair : ∀ a b, added = [a, b] → a.side = .buy ∧ b.side = .sell ∧ b.orderId = a.orderId + 1

/-- The answers to a tick, if there are any, are what a quoter makes. -/
theorem exists_numbers_answers (r : Replay) (t : Tick) :
    r.answers t = [] ∨ ∃ d, r.desk? t.symbol = some d ∧
      ∃ made, d.quoter.Numbers (r.answers t) made := by
  unfold answers
  split
  next => exact .inl rfl
  next d hd =>
    split
    next => exact .inr ⟨d, hd, _, d.quoter.numbers_quote t t.timestamp⟩
    next => exact .inl rfl

/-- A tick adds trades of some of its answers, in the order of these. -/
theorem exists_trades_take (r : Replay) (t : Tick) (took : Duration) :
    ∃ filled added, filled.Sublist (r.answers t) ∧
      List.Forall₂ (fun o u => Desk.TradeOf o t.timestamp u) filled added ∧
        (r.take t took).trades.toList = r.trades.toList ++ added := by
  cases finite : t.isFinite with
  | false =>
    rw [take_of_not_finite took finite]
    exact ⟨[], [], List.nil_sublist _, .nil, (List.append_nil _).symm⟩
  | true =>
    obtain ⟨filled, added, within, matched, grown⟩ := (tried_respond (r := r.ticked) finite).trades
    obtain ⟨desks, noted⟩ := r.ticked.noted_eq t
    rw [noted] at grown
    rw [take_eq_respond took finite]
    exact ⟨filled, added, within.trans List.filter_sublist, matched, grown⟩

/-- What orders have in common, their trades have. -/
theorem forall_mem_of_forall₂ {α β : Type} {R : α → β → Prop} {P : α → Prop} {Q : β → Prop}
    {as : List α} {bs : List β} (related : List.Forall₂ R as bs) (all : ∀ a ∈ as, P a)
    (step : ∀ a b, P a → R a b → Q b) : ∀ b ∈ bs, Q b := by
  induction related with
  | nil => exact List.forall_mem_nil _
  | cons first _ ih =>
    obtain ⟨here, others⟩ := List.forall_mem_cons.1 all
    exact List.forall_mem_cons.2 ⟨step _ _ here first, ih others⟩

/-- Answers to a tick are for its symbol and for one lot. -/
theorem Staffed.quantity_of_mem_answers {quoters : List Quoter} (staffed : r.Staffed quoters)
    {lot : UInt64} (lots : ∀ q ∈ quoters, q.lotSize = lot) {o : Order} (h : o ∈ r.answers t) :
    o.symbol = t.symbol ∧ o.quantity = lot := by
  have named : r.Named := fun symbol d hd => (staffed symbol d hd).2
  refine ⟨symbol_of_mem_answers named h, ?_⟩
  unfold answers at h
  split at h
  next => exact absurd h List.not_mem_nil
  next d hd =>
    split at h
    next =>
      rw [(Quoter.quoted_of_mem h).quantity]
      exact lots d.quoter.reset (staffed _ d hd).1
    next => exact absurd h List.not_mem_nil

/-- Each tick adds trades as described. -/
theorem exists_tickTrades_take {quoters : List Quoter} (staffed : r.Staffed quoters) {lot : UInt64}
    (lots : ∀ q ∈ quoters, q.lotSize = lot) (t : Tick) (took : Duration) :
    ∃ added, (r.take t took).trades.toList = r.trades.toList ++ added ∧ TickTrades lot t added := by
  obtain ⟨filled, added, within, matched, grown⟩ := r.exists_trades_take t took
  refine ⟨added, grown, ?_, ?_, ?_⟩
  · rw [← matched.length_eq]
    refine within.length_le.trans ?_
    rcases r.exists_numbers_answers t with none | ⟨_, _, _, numbers⟩
    · rw [none]
      exact Nat.zero_le 2
    · exact numbers.length_le
  · refine forall_mem_of_forall₂ matched (P := fun o => o.symbol = t.symbol ∧ o.quantity = lot) ?_ ?_
    · exact fun o member => staffed.quantity_of_mem_answers lots (within.subset member)
    · rintro o u ⟨symbol, quantity⟩ own
      exact ⟨own.symbol.trans symbol, own.quantity.trans quantity, own.timestamp⟩
  · rintro a b rfl
    obtain ⟨o, _, first, rest, rfl⟩ := List.forall₂_cons_right_iff.1 matched
    obtain ⟨p, _, second, none, rfl⟩ := List.forall₂_cons_right_iff.1 rest
    obtain rfl := List.forall₂_nil_right_iff.1 none
    -- Both orders are traded, so these are all that answered.
    rcases r.exists_numbers_answers t with none | ⟨_, _, _, numbers⟩
    · rw [none] at within
      exact absurd (List.sublist_nil.1 within) (by simp)
    · have all := within.eq_of_length_le numbers.length_le
      rw [← all] at numbers
      obtain ⟨buy, sell, next⟩ := numbers.of_pair
      exact ⟨first.side.trans buy, second.side.trans sell, by rw [second.id, first.id, next]⟩

/-! ## Numbers of trades -/

/-- The trades of a symbol are numbered upwards, and none beyond the count of its quoter. -/
structure Ascending (symbol : String) (count : ℕ) (r : Replay) : Prop where
  made : ∀ n, r.made? symbol = some n → n.toNat = count
  upwards : ((r.tradesOf symbol).map Trade.orderId).Pairwise (· < ·)
  within : ∀ n ∈ (r.tradesOf symbol).map Trade.orderId, n.toNat ≤ count

variable {symbol : String} {count : ℕ}

/-- The answers to a tick go on from the count. -/
theorem Ascending.answers (h : Ascending symbol count r) (named : r.Named)
    (inRange : count + ((r.answers t).countP fun o => o.symbol = symbol) < UInt64.size) :
    (((r.answers t).filter fun o => o.symbol = symbol).map Order.id).Pairwise (· < ·) ∧
      ∀ n ∈ ((r.answers t).filter fun o => o.symbol = symbol).map Order.id,
        count < n.toNat ∧ n.toNat ≤ count + (r.answers t).countP fun o => o.symbol = symbol := by
  rw [List.countP_eq_length_filter] at inRange ⊢
  by_cases here : t.symbol = symbol
  · have all : ((r.answers t).filter fun o => o.symbol = symbol) = r.answers t :=
      List.filter_eq_self.2 fun o member => decide_eq_true
        ((symbol_of_mem_answers named member).trans here)
    rw [all] at inRange ⊢
    rcases r.exists_numbers_answers t with none | ⟨d, hd, _, numbers⟩
    · rw [none]
      exact ⟨.nil, List.forall_mem_nil _⟩
    · have made : d.quoter.made.toNat = count := h.made _ (by rw [made?, ← here, hd]; rfl)
      rw [← made] at inRange ⊢
      exact numbers.ascending inRange
  · have none : ((r.answers t).filter fun o => o.symbol = symbol) = [] :=
      List.filter_eq_nil_iff.2 fun o member => by
        rw [symbol_of_mem_answers named member]
        simpa using here
    rw [none]
    exact ⟨.nil, List.forall_mem_nil _⟩

/-- The numbers of added trades are some of those of the answers. -/
theorem sublist_orderId {os filled : List Order} {added : List Trade} {now : Int64}
    (within : filled.Sublist os) (matched : List.Forall₂ (fun o u => Desk.TradeOf o now u) filled added)
    (symbol : String) :
    ((added.filter fun u => u.symbol = symbol).map Trade.orderId).Sublist
      ((os.filter fun o => o.symbol = symbol).map Order.id) := by
  have same : (added.filter fun u => u.symbol = symbol).map Trade.orderId =
      (filled.filter fun o => o.symbol = symbol).map Order.id := by
    induction matched with
    | nil => rfl
    | cons own _ ih =>
      have rest := ih ((List.sublist_cons_self _ _).trans within)
      rw [List.filter_cons, List.filter_cons, own.symbol]
      split
      · rw [List.map_cons, List.map_cons, rest, own.id]
      · exact rest
  rw [same]
  exact (within.filter _).map _

theorem Ascending.take (h : Ascending symbol count r) (named : r.Named) (took : Duration)
    (inRange : count + ((r.answers t).countP fun o => o.symbol = symbol) < UInt64.size) :
    Ascending symbol (count + (r.answers t).countP fun o => o.symbol = symbol) (r.take t took) := by
  obtain ⟨filled, added, within, matched, grown⟩ := r.exists_trades_take t took
  obtain ⟨upwards, above⟩ := h.answers named inRange
  have ids := sublist_orderId within matched symbol
  have traded : (r.take t took).tradesOf symbol =
      r.tradesOf symbol ++ added.filter fun u => u.symbol = symbol := by
    rw [tradesOf, grown, List.filter_append, tradesOf]
  constructor
  case made =>
    intro n made
    rw [made?_take named] at made
    obtain ⟨m, before, rfl⟩ := Option.map_eq_some_iff.1 made
    have base := h.made m before
    have more : (UInt64.ofNat ((r.answers t).countP fun o => o.symbol = symbol)).toNat =
        (r.answers t).countP fun o => o.symbol = symbol :=
      UInt64.toNat_ofNat_of_lt' (by omega)
    rw [Word.toNat_add_of_range (by rw [base, more]; exact inRange), base, more]
  case upwards =>
    rw [traded, List.map_append, List.pairwise_append]
    refine ⟨h.upwards, upwards.sublist ids, fun m old n new => ?_⟩
    have below := h.within m old
    have beyond := (above n (ids.subset new)).1
    exact UInt64.lt_iff_toNat_lt.2 (by omega)
  case within =>
    intro n member
    rw [traded, List.map_append] at member
    rcases List.mem_append.1 member with old | new
    · exact (h.within n old).trans (Nat.le_add_right ..)
    · exact (above n (ids.subset new)).2

/-- Runs number trades upwards. -/
theorem Ascending.takeAll (h : Ascending symbol count r) (named : r.Named) (ticks : List Tick)
    (inRange : count + ((r.answersAll ticks).countP fun o => o.symbol = symbol) < UInt64.size) :
    Ascending symbol (count + (r.answersAll ticks).countP fun o => o.symbol = symbol)
      (r.takeAll ticks) := by
  induction ticks generalizing r count with
  | nil => exact h
  | cons t ts ih =>
    rw [answersAll, List.countP_append, ← Nat.add_assoc] at inRange ⊢
    have first := h.take named .zero (t := t) (by omega)
    exact ih first (kept_named.take t .zero named) inRange

theorem ascending_new {settings : EngineSettings} {quoters : List QuoterSettings}
    (h : Replay.new settings quoters = .ok r) (symbol : String) : Ascending symbol 0 r := by
  have none : r.tradesOf symbol = [] := by rw [tradesOf, trades_new h]; rfl
  refine ⟨fun n made => ?_, by rw [none]; exact .nil, by rw [none]; exact List.forall_mem_nil _⟩
  obtain ⟨d, hd, rfl⟩ := Option.map_eq_some_iff.1 made
  rw [(fresh_new h symbol d hd).2]
  rfl

/-- The times of a run say nothing about numbers. -/
theorem Ascending.of_same {r' : Replay} (h : Ascending symbol count r) (same : SameButTimes r' r) :
    Ascending symbol count r' := by
  have trades : r'.tradesOf symbol = r.tradesOf symbol :=
    (congrArg (tradesOf · symbol) same.same).symm
  have made : r'.made? symbol = r.made? symbol := (congrArg (made? · symbol) same.same).symm
  exact ⟨by rw [made]; exact h.made, by rw [trades]; exact h.upwards, by rw [trades]; exact h.within⟩

/-- A symbol's trades have a quoter, which has made their orders. -/
theorem Ascending.exists_made (h : Ascending symbol count r) (balanced : r.Balanced) {u : Trade}
    (member : u ∈ r.tradesOf symbol) :
    ∃ d, r.desk? symbol = some d ∧ u.orderId ≤ d.quoter.made := by
  cases hd : r.desk? symbol with
  | none =>
    rw [balanced.unquoted symbol hd] at member
    exact absurd member List.not_mem_nil
  | some d =>
    have own : d.quoter.made.toNat = count := h.made _ (by rw [made?, hd]; rfl)
    refine ⟨d, rfl, UInt64.le_iff_toNat_le.2 ?_⟩
    rw [own]
    exact h.within _ (List.mem_map_of_mem member)

/-! ## Times of trades -/

/-- Where ticks are in order, so are the trades. -/
theorem pairwise_timestamp_takeAll {ticks : List Tick}
    (ordered : ticks.Pairwise fun t u => t.timestamp ≤ u.timestamp)
    (later : ∀ u ∈ r.trades.toList, ∀ t ∈ ticks, u.timestamp ≤ t.timestamp)
    (h : r.trades.toList.Pairwise fun u v => u.timestamp ≤ v.timestamp) :
    (r.takeAll ticks).trades.toList.Pairwise fun u v => u.timestamp ≤ v.timestamp := by
  induction ticks generalizing r with
  | nil => exact h
  | cons t ts ih =>
    obtain ⟨next, rest⟩ := List.pairwise_cons.1 ordered
    obtain ⟨filled, added, _, matched, grown⟩ := r.exists_trades_take t .zero
    have now : ∀ u ∈ added, u.timestamp = t.timestamp :=
      forall_mem_of_forall₂ matched (P := fun _ => True) (fun _ _ => trivial)
        fun _ _ _ own => own.timestamp
    refine ih rest ?_ ?_
    · intro u member t' upcoming
      rw [grown] at member
      rcases List.mem_append.1 member with old | new
      · exact later u old t' (List.mem_cons_of_mem _ upcoming)
      · rw [now u new]
        exact next t' upcoming
    · rw [grown, List.pairwise_append]
      refine ⟨h, List.pairwise_of_forall_mem_list fun u hu v hv => ?_, fun u old v new => ?_⟩
      · rw [now u hu, now v hv]
        exact Int64.le_refl _
      · rw [now v new]
        exact later u old t List.mem_cons_self

/-- Profits are listed at the times of their trades. -/
theorem Profits.timestamps {trades : Array Trade} {l : Ledger} (h : Profits trades l) :
    l.history.toList.map PnlPoint.timestamp = trades.toList.map Trade.timestamp := by
  refine List.ext_getElem? fun i => ?_
  rw [List.getElem?_map, List.getElem?_map, Array.getElem?_toList, Array.getElem?_toList, h.history]
  cases trades[i]? <;> rfl

end Replay

/-- Taking ticks adds no quoter. -/
theorem Operation.IsTicking.isFresh {op : Operation} (h : op.IsTicking) : op.IsFresh := by
  cases op with
  | addQuoter q => exact h.elim
  | _ => trivial

namespace Session

open Replay

variable {σ : Type} [Cache.Store σ]

/-- **The trades of a run are in order.** Ticks and runs of ticks take their ticks one by one, less
those that a budget cuts off. Each tick adds at most two trades, of its symbol, for one lot and at its
time, and if two then a purchase and the sale with the next number. Unless a quoter's count leaves its
range, the numbers of each symbol's trades go up, so that no order trades twice, and none is beyond
what its quoter has made. Where the ticks are in order of time, the trades and the profits are too. -/
theorem trades_in_order {settings : Settings} {cache : σ} {s : Session σ}
    (started : start settings cache = .ok s) {ops : List Operation}
    (ticking : ∀ op ∈ ops, op.IsTicking) (w : Readings) :
    let r := (s.after ops w).replay
    (∀ before t, ∃ added,
      (s.replay.takeAll (before ++ [t])).trades.toList =
        (s.replay.takeAll before).trades.toList ++ added ∧
      TickTrades settings.engine.lotSize t added) ∧
    (∃ taken, taken.Sublist (ops.flatMap Operation.ticks) ∧
      ((∀ op ∈ ops, op.IsUntimed) → taken = ops.flatMap Operation.ticks) ∧
      SameButTimes r (s.replay.takeAll taken) ∧
      ∀ symbol, ((s.replay.answersAll taken).countP fun o => o.symbol = symbol) < UInt64.size →
        (r.tradesOf symbol).Pairwise (fun u v => u.orderId < v.orderId) ∧
        ∀ u ∈ r.tradesOf symbol, ∃ d, r.desk? symbol = some d ∧ u.orderId ≤ d.quoter.made) ∧
    ((ops.flatMap Operation.ticks).Pairwise (fun t u => t.timestamp ≤ u.timestamp) →
      r.trades.toList.Pairwise (fun u v => u.timestamp ≤ v.timestamp) ∧
      r.ledger.history.toList.Pairwise fun p q => p.timestamp ≤ q.timestamp) := by
  intro r
  have made := (start_ok started).2
  have staffed := staffed_new made
  have lots : ∀ q ∈ settings.quoters.map settings.quoter, q.lotSize = settings.engine.lotSize :=
    List.forall_mem_map.2 fun _ _ => rfl
  have balanced : r.Balanced := balanced_after started (fun op member => (ticking op member).isFresh) w
  obtain ⟨taken, within, whole, same⟩ := exists_sameButTimes_after ticking s w
  refine ⟨fun before t => ?_, ⟨taken, within, whole, same, fun symbol inRange => ?_⟩, fun ordered => ?_⟩
  · have added := exists_tickTrades_take (staffed_takeAll staffed before) lots t .zero
    rwa [takeAll, List.foldl_append]
  · have numbered : Ascending symbol _ r :=
      ((ascending_new made symbol).takeAll (named_new made) taken (by omega)).of_same same
    exact ⟨List.pairwise_map.1 numbered.upwards, fun u member => numbered.exists_made balanced member⟩
  · have nothing : s.replay.trades.toList = [] := by rw [trades_new made]
    have sorted : r.trades.toList.Pairwise fun u v => u.timestamp ≤ v.timestamp := by
      have trades : r.trades = (s.replay.takeAll taken).trades :=
        (congrArg Replay.trades same.same).symm
      rw [trades]
      refine pairwise_timestamp_takeAll (ordered.sublist within) ?_ ?_
      · rw [nothing]
        exact List.forall_mem_nil _
      · rw [nothing]
        exact .nil
    refine ⟨sorted, List.pairwise_map.1 ?_⟩
    rw [balanced.profits.timestamps]
    exact List.pairwise_map.2 sorted

end Session

namespace Sample

/-- Two ticks of one symbol with a tick of another between them, one by itself and two in a run. -/
def inOrder : List Operation :=
  [.tick (tick "B"), .run [{ tick "A" with timestamp := 2 }, { tick "B" with timestamp := 3 }] none]

end Sample

namespace Session

open Replay

/-- Each of the ticks adds a purchase and a sale. The four trades of the symbol with two ticks are numbered
upwards, up to what its quoter has made, and all six are in order of time. -/
theorem trades_in_order_sample :
    (∀ op ∈ Sample.inOrder, op.IsTicking) ∧
    (Sample.inOrder.flatMap Operation.ticks).Pairwise (fun t u => t.timestamp ≤ u.timestamp) ∧
    ∃ r, (Sample.session.after Sample.inOrder Sample.clock).replay = r ∧
      (r.tradesOf "B").length = 4 ∧
      (r.tradesOf "B").Pairwise (fun u v => u.orderId < v.orderId) ∧
      (∀ u ∈ r.tradesOf "B", ∃ d, r.desk? "B" = some d ∧ u.orderId ≤ d.quoter.made) ∧
      r.trades.size = 6 ∧ r.trades.toList.Pairwise (fun u v => u.timestamp ≤ v.timestamp) ∧
      r.ledger.history.toList.Pairwise fun p q => p.timestamp ≤ q.timestamp := by
  have ticking : ∀ op ∈ Sample.inOrder, op.IsTicking := by
    simp [Sample.inOrder, Operation.IsTicking]
  have untimed : ∀ op ∈ Sample.inOrder, op.IsUntimed := by
    simp [Sample.inOrder, Operation.IsUntimed]
  have ordered : (Sample.inOrder.flatMap Operation.ticks).Pairwise
      fun t u => t.timestamp ≤ u.timestamp := by
    decide +kernel
  have inRange : ((Sample.session.replay.answersAll (Sample.inOrder.flatMap Operation.ticks)).countP
      fun o => o.symbol = "B") < UInt64.size := by
    decide +kernel
  obtain ⟨-, ⟨taken, -, whole, -, numbered⟩, times⟩ :=
    trades_in_order Sample.started ticking Sample.clock
  obtain rfl := whole untimed
  obtain ⟨upwards, below⟩ := numbered "B" inRange
  obtain ⟨trades, profits⟩ := times ordered
  exact ⟨ticking, ordered, _, rfl, by decide +kernel, upwards, below, by decide +kernel, trades,
    profits⟩

end Session

end MarketMaker
