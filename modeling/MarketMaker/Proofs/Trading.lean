import MarketMaker.Proofs.Operation

/-!
# How a replay trades

What an order can do to a replay, in three cases (`Replay.submit_cases`): it is refused, it finds no
match, or it fills. Answering a tick is noting the quotes of a desk and submitting them, so a
property of books and trades that noting quotes and booking a trade keep is kept by every operation
(`Replay.Kept.of_trading`).
-/

namespace MarketMaker

/-! ## Quotes -/

namespace Quoter

/-- The quoter after a quote differs in the number of orders it made alone. -/
theorem quote_snd (q : Quoter) (t : Tick) (now : Int64) :
    ∃ n, (q.quote t now).2 = { q with made := n } := by
  unfold quote make
  split
  · cases q.quotesBid t <;> cases q.quotesAsk t
    · exact ⟨_, rfl⟩
    · exact ⟨_, rfl⟩
    · exact ⟨_, rfl⟩
    · exact ⟨_, rfl⟩
  · exact ⟨_, rfl⟩

theorem quote_of_no_market (q : Quoter) {t : Tick} (none : t.hasMarket = false) (now : Int64) :
    q.quote t now = ([], q) := by
  rw [quote, if_neg (by simp [none])]

@[simp] theorem quote_position (q : Quoter) (t : Tick) (now : Int64) :
    (q.quote t now).2.position = q.position := by
  obtain ⟨n, h⟩ := q.quote_snd t now
  rw [h]

/-- What a quoter was made with is what a reset keeps, and a quote keeps it too. -/
@[simp] theorem quote_reset (q : Quoter) (t : Tick) (now : Int64) :
    (q.quote t now).2.reset = q.reset := by
  obtain ⟨n, h⟩ := q.quote_snd t now
  rw [h]
  rfl

@[simp] theorem reset_symbol (q : Quoter) : q.reset.symbol = q.symbol := rfl

@[simp] theorem reset_settings (q : Quoter) : q.reset.settings = q.settings := rfl

@[simp] theorem reset_lotSize (q : Quoter) : q.reset.lotSize = q.lotSize := rfl

/-- Quoters that were made alike quote the same symbol. -/
theorem symbol_eq_of_reset {p q : Quoter} (h : p.reset = q.reset) : p.symbol = q.symbol := by
  rw [← reset_symbol p, h, reset_symbol]

theorem settings_eq_of_reset {p q : Quoter} (h : p.reset = q.reset) : p.settings = q.settings := by
  rw [← reset_settings p, h, reset_settings]

theorem lotSize_eq_of_reset {p q : Quoter} (h : p.reset = q.reset) : p.lotSize = q.lotSize := by
  rw [← reset_lotSize p, h, reset_lotSize]

/-- No order, or one order of a lot if it is wanted. -/
inductive AtMostOne (q : Quoter) (wanted : Bool) (side : Side) : List Order → Prop
  | none : AtMostOne q wanted side []
  | one (o : Order) (wants : wanted = true) (own : o.side = side) (symbol : o.symbol = q.symbol)
      (lot : o.quantity = q.lotSize) : AtMostOne q wanted side [o]

/-- A quote is at most one order to buy, then at most one order to sell. Both are decided on before
either is tried. -/
theorem quote_fst (q : Quoter) (t : Tick) (now : Int64) :
    ∃ bids asks, (q.quote t now).1 = bids ++ asks ∧ q.AtMostOne (q.quotesBid t) .buy bids ∧
      q.AtMostOne (q.quotesAsk t) .sell asks := by
  unfold quote make
  split
  · cases hb : q.quotesBid t
    · cases ha : q.quotesAsk t
      · exact ⟨[], [], rfl, .none, .none⟩
      · exact ⟨[], _, rfl, .none, .one _ rfl rfl rfl rfl⟩
    · -- Counting the order to buy makes no difference to whether the order to sell is quoted.
      cases ha : q.quotesAsk t
      · exact ⟨_, [], rfl, .one _ rfl rfl rfl rfl, .none⟩
      · exact ⟨_, _, rfl, .one _ rfl rfl rfl rfl, .one _ rfl rfl rfl rfl⟩
  · exact ⟨[], [], rfl, .none, .none⟩

theorem AtMostOne.symbol_of_mem {q : Quoter} {wanted : Bool} {side : Side} {orders : List Order}
    (h : q.AtMostOne wanted side orders) {o : Order} (member : o ∈ orders) :
    o.symbol = q.symbol := by
  cases h with
  | none => exact absurd member List.not_mem_nil
  | one own _ _ symbol _ =>
    obtain rfl := List.mem_singleton.1 member
    exact symbol

theorem symbol_of_mem_quote {q : Quoter} {t : Tick} {now : Int64} {o : Order}
    (h : o ∈ (q.quote t now).1) : o.symbol = q.symbol := by
  obtain ⟨bids, asks, quoted, bid, ask⟩ := q.quote_fst t now
  rw [quoted, List.mem_append] at h
  rcases h with h | h
  · exact bid.symbol_of_mem h
  · exact ask.symbol_of_mem h

end Quoter

namespace Desk

@[simp] theorem observe_quoter (d : Desk) (t : Tick) : (d.observe t).quoter = d.quoter := rfl

@[simp] theorem quote_quoter (d : Desk) (t : Tick) :
    (d.quote t).2.quoter = (d.quoter.quote t t.timestamp).2 := rfl

@[simp] theorem quote_orders (d : Desk) (t : Tick) :
    (d.quote t).1 = (d.quoter.quote t t.timestamp).1 := rfl

/-- A trade is of its order, at the time given, and has a price and a slippage of its own. -/
structure TradeOf (o : Order) (now : Int64) (t : Trade) : Prop where
  id : t.orderId = o.id
  symbol : t.symbol = o.symbol
  side : t.side = o.side
  quantity : t.quantity = o.quantity
  timestamp : t.timestamp = now

theorem tradeOf_of_trade? {s : EngineSettings} {d : Desk} {o : Order} {now : Int64} {t : Trade}
    (h : d.trade? s o now = some t) : TradeOf o now t := by
  obtain ⟨fill, _, rfl⟩ := Option.map_eq_some_iff.1 h
  exact ⟨rfl, rfl, rfl, rfl, rfl⟩

end Desk

/-! ## Orders -/

namespace Replay

/-- Why an order is refused, if it is: the order's own fault comes before an unknown symbol. -/
def refusal? (r : Replay) (o : Order) : Option OrderFault :=
  match orderFault? o, r.desk? o.symbol with
  | some fault, _ => some fault
  | none, none => some (.unquoted o.id o.symbol)
  | none, some _ => none

theorem submit_of_refused {r : Replay} {o : Order} {fault : OrderFault}
    (h : r.refusal? o = some fault) (now : Int64) : r.submit o now = (.error fault, r.reject) := by
  unfold refusal? at h
  unfold submit
  cases known : orderFault? o with
  | some own =>
    rw [known] at h
    obtain rfl : own = fault := by simpa using h
    rfl
  | none =>
    cases hd : r.desk? o.symbol with
    | none =>
      rw [known, hd] at h
      obtain rfl : OrderFault.unquoted o.id o.symbol = fault := by simpa using h
      rfl
    | some d =>
      rw [known, hd] at h
      exact absurd h (by simp)

theorem desk_of_accepted {r : Replay} {o : Order} (h : r.refusal? o = none) :
    ∃ d, r.desk? o.symbol = some d := by
  unfold refusal? at h
  split at h
  next => exact absurd h (by simp)
  next => exact absurd h (by simp)
  next d _ hd => exact ⟨d, hd⟩

/-- An order that is accepted counts, and books its trade if it has one. -/
theorem submit_of_accepted {r : Replay} {o : Order} {d : Desk} (h : r.refusal? o = none)
    (hd : r.desk? o.symbol = some d) (now : Int64) :
    r.submit o now = (.ok (d.trade? r.settings o now),
      match d.trade? r.settings o now with
      | none => r.count o (d.valuePrice o)
      | some t => (r.count o (d.valuePrice o)).book d t) := by
  have faultless : orderFault? o = none := by
    cases hf : orderFault? o with
    | none => rfl
    | some fault => simp [refusal?, hf] at h
  simp only [submit, faultless, hd]
  cases d.trade? r.settings o now with
  | none => rfl
  | some t => rfl

/-- The three things an order can do: it is refused, it finds no match, or it fills. -/
theorem submit_cases (r : Replay) (o : Order) (now : Int64) :
    (∃ fault, r.refusal? o = some fault ∧ r.submit o now = (.error fault, r.reject)) ∨
    (∃ d, r.refusal? o = none ∧ r.desk? o.symbol = some d ∧ d.trade? r.settings o now = none ∧
      r.submit o now = (.ok none, r.count o (d.valuePrice o))) ∨
    (∃ d t, r.refusal? o = none ∧ r.desk? o.symbol = some d ∧
      d.trade? r.settings o now = some t ∧
      r.submit o now = (.ok (some t), (r.count o (d.valuePrice o)).book d t)) := by
  cases refused : r.refusal? o with
  | some fault => exact .inl ⟨fault, rfl, submit_of_refused refused now⟩
  | none =>
    obtain ⟨d, hd⟩ := desk_of_accepted refused
    have submitted := submit_of_accepted refused hd now
    cases ht : d.trade? r.settings o now with
    | none =>
      rw [ht] at submitted
      exact .inr (.inl ⟨d, rfl, hd, ht, submitted⟩)
    | some t =>
      rw [ht] at submitted
      exact .inr (.inr ⟨d, t, rfl, hd, ht, submitted⟩)

/-- The trades of a symbol, in their order. -/
def tradesOf (r : Replay) (symbol : String) : List Trade :=
  r.trades.toList.filter fun t => t.symbol = symbol

theorem tradesOf_book (r : Replay) (d : Desk) (t : Trade) (symbol : String) :
    (r.book d t).tradesOf symbol =
      if t.symbol = symbol then r.tradesOf symbol ++ [t] else r.tradesOf symbol := by
  simp only [tradesOf, book, Array.toList_push, List.filter_append]
  by_cases h : t.symbol = symbol <;> simp [h]

theorem desk?_setDesk (r : Replay) (symbol other : String) (d : Desk) :
    (r.setDesk symbol d).desk? other = if other = symbol then some d else r.desk? other :=
  Table.find?_insert ..

theorem desk?_book (r : Replay) (d : Desk) (t : Trade) (symbol : String) :
    (r.book d t).desk? symbol = if symbol = t.symbol then some (d.onTrade t) else r.desk? symbol :=
  Table.find?_insert ..

theorem holding?_book (r : Replay) (d : Desk) (t : Trade) (symbol : String) :
    (r.book d t).ledger.holdings.find? symbol =
      if symbol = t.symbol then some ((r.ledger.holding t.symbol).book t)
      else r.ledger.holdings.find? symbol :=
  Table.find?_insert ..

theorem desk?_reset (r : Replay) (symbol : String) :
    r.reset.desk? symbol = (r.desk? symbol).map (Desk.reset r.settings.volatility) :=
  Table.find?_map ..

theorem quotes_eq_isSome (r : Replay) (symbol : String) :
    r.quotes symbol = (r.desk? symbol).isSome := rfl

/-- A desk is added for a symbol that has none, if there can be room for its window. -/
theorem addQuoter_eq_ok_iff {r r' : Replay} {q : Quoter} :
    r.addQuoter q = .ok r' ↔
      r.desk? q.symbol = none ∧ r.settings.volatility.HasRoom ∧
      r' = { r with
        desks := r.desks.insert q.symbol (.new r.settings.volatility q)
        ledger := r.ledger.register q.symbol } := by
  have absent : r.desks.contains q.symbol = true ↔ r.desk? q.symbol ≠ none :=
    Option.isSome_iff_ne_none
  unfold addQuoter
  split
  next quoted => simp [absent.1 quoted]
  next unquoted =>
    rw [absent, Classical.not_not] at unquoted
    cases made : Desk.make? r.settings.volatility q with
    | none => simp [Desk.make?_eq_none_iff.1 made]
    | some d =>
      obtain ⟨room, rfl⟩ := Desk.make?_eq_some_iff.1 made
      simp [unquoted, room, eq_comm]

theorem addQuoter_ok {r r' : Replay} {q : Quoter} (h : r.addQuoter q = .ok r') :
    r.desk? q.symbol = none ∧
    r' = { r with
      desks := r.desks.insert q.symbol (.new r.settings.volatility q)
      ledger := r.ledger.register q.symbol } :=
  ⟨(addQuoter_eq_ok_iff.1 h).1, (addQuoter_eq_ok_iff.1 h).2.2⟩

/-! ## Ticks -/

theorem respond_of_none {r : Replay} {t : Tick} (h : r.desk? t.symbol = none) :
    r.respond t = r := by
  simp only [respond, h]

/-- A tick is answered by noting the quotes of its desk and submitting them. -/
theorem respond_of_desk {r : Replay} {t : Tick} {d : Desk} (h : r.desk? t.symbol = some d) :
    r.respond t =
      (r.setDesk t.symbol ((d.observe t).quote t).2).submitAll ((d.observe t).quote t).1
        t.timestamp := by
  simp only [respond, h]

/-! ## What trading keeps -/

/-- The books and the trades of two replays are the same. -/
structure SameBooks (r r' : Replay) : Prop where
  settings : r.settings = r'.settings
  desks : r.desks = r'.desks
  ledger : r.ledger = r'.ledger
  trades : r.trades = r'.trades

theorem kept_submitAll {P : Replay → Prop}
    (submit : ∀ r o now, P r → P (r.submit o now).2) (orders : List Order) (now : Int64)
    {r : Replay} (h : P r) : P (r.submitAll orders now) := by
  induction orders generalizing r with
  | nil => exact h
  | cons o os ih => exact ih (submit r o now h)

/-- A property of the books alone is kept by every operation, if it is kept where quotes are noted,
where a trade is booked, where a desk is added and where all is forgotten. -/
theorem Kept.of_trading {allowed : Operation → Prop} {P : Replay → Prop}
    (same : ∀ r r', SameBooks r r' → P r → P r')
    (quote : ∀ r t d, r.desk? t.symbol = some d → P r →
      P (r.setDesk t.symbol ((d.observe t).quote t).2))
    (book : ∀ r o now d t, r.desk? o.symbol = some d → d.trade? r.settings o now = some t →
      P r → P (r.book d t))
    (addQuoter : ∀ q, allowed (.addQuoter q) → ∀ r r', P r → r.addQuoter q = .ok r' → P r')
    (reset : ∀ r, P r → P r.reset) : Kept allowed P := by
  have submit : ∀ r o now, P r → P (r.submit o now).2 := by
    intro r o now h
    rcases r.submit_cases o now with ⟨_, _, hs⟩ | ⟨d, _, _, _, hs⟩ | ⟨d, t, _, hd, ht, hs⟩
    · rw [hs]
      exact same r _ ⟨rfl, rfl, rfl, rfl⟩ h
    · rw [hs]
      exact same r _ ⟨rfl, rfl, rfl, rfl⟩ h
    · rw [hs]
      have counted : P (r.count o (d.valuePrice o)) := same r _ ⟨rfl, rfl, rfl, rfl⟩ h
      exact book _ o now d t hd ht counted
  constructor
  case accept => exact fun r h => same r _ ⟨rfl, rfl, rfl, rfl⟩ h
  case timed => exact fun r _ h => same r _ ⟨rfl, rfl, rfl, rfl⟩ h
  case elapse => exact fun r _ h => same r _ ⟨rfl, rfl, rfl, rfl⟩ h
  case respond =>
    intro r t h
    cases hd : r.desk? t.symbol with
    | none => rwa [respond_of_none hd]
    | some d =>
      rw [respond_of_desk hd]
      exact kept_submitAll submit _ _ (quote r t d hd h)
  case addQuoter => exact addQuoter
  case submit => exact fun o now _ r h => submit r o now h
  case reset => exact fun _ => reset

/-- Where nothing but ticks trades, a property of the books is kept if the answers to ticks keep it.
-/
theorem Kept.of_ticks {P : Replay → Prop} (same : ∀ r r', SameBooks r r' → P r → P r')
    (respond : ∀ r t, P r → P (r.respond t)) (reset : ∀ r, P r → P r.reset) :
    Kept Operation.IsDriven P where
  accept r h := same r _ ⟨rfl, rfl, rfl, rfl⟩ h
  respond := respond
  timed r _ h := same r _ ⟨rfl, rfl, rfl, rfl⟩ h
  elapse r _ h := same r _ ⟨rfl, rfl, rfl, rfl⟩ h
  addQuoter _ driven := driven.elim
  submit _ _ driven := driven.elim
  reset _ := reset

end Replay

end MarketMaker
