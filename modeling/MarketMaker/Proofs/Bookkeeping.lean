import MarketMaker.Proofs.Registration
import MarketMaker.Word
import Mathlib.Algebra.Order.Ring.Int

/-!
# The books balance

What is held in a symbol is kept twice, by its quoter and by the ledger, and what was traded is kept
twice more, trade by trade and as a history of profits. That the four agree is an invariant
(`Replay.Balanced`), and so holds after any operations. The words of a holding wrap, so its totals
are those of the trades as long as no addition leaves its range (`Holding.BooksExactly`); all else
holds whether they wrap or not.
-/

namespace MarketMaker

/-! ## Trades booked one after the other -/

theorem Performance.sum_append_singleton (xs : List Float) (x : Float) :
    Performance.sum (xs ++ [x]) = Performance.sum xs + x := by
  simp only [Performance.sum, List.foldl_append, List.foldl_cons, List.foldl_nil]

namespace Holding

/-- What trades come to. -/
def ofTrades (ts : List Trade) : Holding :=
  ts.foldl Holding.book .flat

theorem ofTrades_append (ts : List Trade) (t : Trade) :
    ofTrades (ts ++ [t]) = (ofTrades ts).book t := by
  simp only [ofTrades, List.foldl_append, List.foldl_cons, List.foldl_nil]

theorem ofTrades_cash (ts : List Trade) :
    (ofTrades ts).cash = Performance.sum (ts.map Trade.cashFlow) := by
  have fold : ∀ h : Holding,
      (ts.foldl Holding.book h).cash = (ts.map Trade.cashFlow).foldl (· + ·) h.cash := by
    induction ts with
    | nil => exact fun _ => rfl
    | cons t ts ih => exact fun h => ih (h.book t)
  exact fold .flat

/-- A trade can be booked without an addition that leaves its range. -/
structure Fits (h : Holding) (t : Trade) : Prop where
  position : Int64.minValue.toInt ≤ h.position.toInt + t.signedQuantity.toInt ∧
    h.position.toInt + t.signedQuantity.toInt ≤ Int64.maxValue.toInt
  volume : h.volume.toNat + t.quantity.toNat < UInt64.size
  buys : t.side = .buy → h.buys.toNat + 1 < UInt64.size
  sells : t.side = .sell → h.sells.toNat + 1 < UInt64.size

/-- Trades can be booked one after the other without an addition that leaves its range. -/
inductive BooksExactly : Holding → List Trade → Prop
  | nil (h : Holding) : BooksExactly h []
  | cons {h : Holding} {t : Trade} {ts : List Trade} (fits : h.Fits t)
      (rest : (h.book t).BooksExactly ts) : BooksExactly h (t :: ts)

theorem booksExactly_cons {h : Holding} {t : Trade} {ts : List Trade} :
    h.BooksExactly (t :: ts) ↔ h.Fits t ∧ (h.book t).BooksExactly ts := by
  constructor
  · intro inRange
    cases inRange with
    | cons fits rest => exact ⟨fits, rest⟩
  · exact fun ⟨fits, rest⟩ => .cons fits rest

instance (h : Holding) (t : Trade) : Decidable (h.Fits t) :=
  decidable_of_iff
    ((Int64.minValue.toInt ≤ h.position.toInt + t.signedQuantity.toInt ∧
        h.position.toInt + t.signedQuantity.toInt ≤ Int64.maxValue.toInt) ∧
      h.volume.toNat + t.quantity.toNat < UInt64.size ∧
      (t.side = .buy → h.buys.toNat + 1 < UInt64.size) ∧
      (t.side = .sell → h.sells.toNat + 1 < UInt64.size))
    ⟨fun ⟨position, volume, buys, sells⟩ => ⟨position, volume, buys, sells⟩,
      fun ⟨position, volume, buys, sells⟩ => ⟨position, volume, buys, sells⟩⟩

instance decidableBooksExactly : (h : Holding) → (ts : List Trade) → Decidable (h.BooksExactly ts)
  | h, [] => .isTrue (.nil h)
  | h, t :: ts =>
    have := decidableBooksExactly (h.book t) ts
    decidable_of_iff _ booksExactly_cons.symm

theorem booksExactly_append {h : Holding} {ts us : List Trade} :
    h.BooksExactly (ts ++ us) ↔ h.BooksExactly ts ∧ (ts.foldl Holding.book h).BooksExactly us := by
  induction ts generalizing h with
  | nil => exact ⟨fun rest => ⟨.nil h, rest⟩, fun both => both.2⟩
  | cons t ts ih =>
    rw [List.cons_append, booksExactly_cons, ih, booksExactly_cons, List.foldl_cons, and_assoc]

/-- A holding has grown by what trades add up to, in numbers without bounds. -/
structure GrownBy (h : Holding) (ts : List Trade) (h' : Holding) : Prop where
  position : h'.position.toInt =
    h.position.toInt + (ts.map fun t => t.signedQuantity.toInt).sum
  volume : h'.volume.toNat = h.volume.toNat + (ts.map fun t => t.quantity.toNat).sum
  buys : h'.buys.toNat = h.buys.toNat + ts.countP fun t => t.side = .buy
  sells : h'.sells.toNat = h.sells.toNat + ts.countP fun t => t.side = .sell

theorem grownBy_book {h : Holding} {t : Trade} (fits : h.Fits t) : h.GrownBy [t] (h.book t) where
  position := by
    have sum := Word.toInt_add_of_range fits.position.1 fits.position.2
    simpa [book] using sum
  volume := by
    have sum := Word.toNat_add_of_range fits.volume
    simpa [book] using sum
  buys := by
    cases side : t.side with
    | buy =>
      have sum := Word.toNat_add_of_range (b := 1) (fits.buys side)
      simpa [book, side] using sum
    | sell => simp [book, side]
  sells := by
    cases side : t.side with
    | buy => simp [book, side]
    | sell =>
      have sum := Word.toNat_add_of_range (b := 1) (fits.sells side)
      simpa [book, side] using sum

theorem GrownBy.trans {h₁ h₂ h₃ : Holding} {ts us : List Trade} (first : h₁.GrownBy ts h₂)
    (second : h₂.GrownBy us h₃) : h₁.GrownBy (ts ++ us) h₃ where
  position := by
    rw [second.position, first.position, List.map_append, List.sum_append_int, Int.add_assoc]
  volume := by
    rw [second.volume, first.volume, List.map_append, List.sum_append_nat, Nat.add_assoc]
  buys := by rw [second.buys, first.buys, List.countP_append, Nat.add_assoc]
  sells := by rw [second.sells, first.sells, List.countP_append, Nat.add_assoc]

/-- Where no addition leaves its range, booking trades adds them up. -/
theorem grownBy_foldl {h : Holding} {ts : List Trade} (inRange : h.BooksExactly ts) :
    h.GrownBy ts (ts.foldl Holding.book h) := by
  induction inRange with
  | nil h => exact ⟨by simp, by simp, by simp, by simp⟩
  | cons fits _ ih => exact (grownBy_book fits).trans ih

/-- What trades come to, in numbers without bounds. -/
theorem ofTrades_totals {ts : List Trade} (inRange : flat.BooksExactly ts) :
    (ofTrades ts).position.toInt = (ts.map fun t => t.signedQuantity.toInt).sum ∧
    (ofTrades ts).volume.toNat = (ts.map fun t => t.quantity.toNat).sum ∧
    (ofTrades ts).buys.toNat = (ts.countP fun t => t.side = .buy) ∧
    (ofTrades ts).sells.toNat = ts.countP fun t => t.side = .sell := by
  have grown : flat.GrownBy ts (ofTrades ts) := grownBy_foldl inRange
  rw [grown.position, grown.volume, grown.buys, grown.sells]
  exact ⟨Int.zero_add _, Nat.zero_add _, Nat.zero_add _, Nat.zero_add _⟩

end Holding

/-! ## The invariant -/

namespace Replay

/-- The profits of some trades one after the other are those listed beside them. -/
structure Profits (trades : Array Trade) (l : Ledger) : Prop where
  history : ∀ i, l.history[i]? = trades[i]?.map fun t =>
    PnlPoint.mk t.timestamp (Performance.sum ((trades.toList.take (i + 1)).map Trade.cashFlow))
  size : l.history.size = trades.size
  pnl : l.pnl = Performance.sum (trades.toList.map Trade.cashFlow)

/-- Desks, ledger and trades say the same. -/
structure Balanced (r : Replay) : Prop where
  position : ∀ symbol d, r.desk? symbol = some d →
    d.quoter.position = (Holding.ofTrades (r.tradesOf symbol)).position
  holding : ∀ symbol, r.ledger.holdings.find? symbol =
    (r.desk? symbol).map fun _ => Holding.ofTrades (r.tradesOf symbol)
  unquoted : ∀ symbol, r.desk? symbol = none → r.tradesOf symbol = []
  profits : Profits r.trades r.ledger

theorem profits_empty {l : Ledger} (h : l.history = #[]) : Profits #[] l where
  history i := by simp [h]
  size := by rw [h]; rfl
  pnl := by rw [Ledger.pnl, h]; rfl

theorem Profits.of_history {trades : Array Trade} {l l' : Ledger} (h : Profits trades l)
    (same : l'.history = l.history) : Profits trades l' where
  history i := by rw [same, h.history]
  size := by rw [same, h.size]
  pnl := by rw [Ledger.pnl, same, ← Ledger.pnl, h.pnl]

theorem profits_book {trades : Array Trade} {l : Ledger} (h : Profits trades l) (t : Trade) :
    Profits (trades.push t) (l.book t) where
  history i := by
    have grown : (l.book t).history = l.history.push ⟨t.timestamp, l.pnl + t.cashFlow⟩ := rfl
    rw [grown, Array.getElem?_push, Array.getElem?_push, h.size, Array.toList_push]
    split
    next last =>
      have whole : (trades.toList ++ [t]).take (i + 1) = trades.toList ++ [t] := by
        rw [List.take_of_length_le]
        simp [last]
      rw [whole, List.map_append, List.map_singleton, Performance.sum_append_singleton, ← h.pnl]
      rfl
    next before =>
      rw [h.history i]
      by_cases inside : i < trades.size
      · have same : (trades.toList ++ [t]).take (i + 1) = trades.toList.take (i + 1) :=
          List.take_append_of_le_length (by rw [Array.length_toList]; exact inside)
        rw [same]
      · rw [Array.getElem?_eq_none (by omega)]
        rfl
  size := by
    change (l.history.push _).size = (trades.push t).size
    rw [Array.size_push, Array.size_push, h.size]
  pnl := by
    have latest : (l.book t).pnl = l.pnl + t.cashFlow := by simp [Ledger.pnl, Ledger.book]
    rw [latest, h.pnl, Array.toList_push, List.map_append, List.map_singleton,
      Performance.sum_append_singleton]

theorem Balanced.ledger_holding {r : Replay} (h : r.Balanced) {symbol : String} {d : Desk}
    (hd : r.desk? symbol = some d) :
    r.ledger.holding symbol = Holding.ofTrades (r.tradesOf symbol) := by
  rw [Ledger.holding, h.holding, hd]
  rfl

/-- A position is the sum of its symbol's trades. -/
theorem Balanced.toInt_position {r : Replay} (h : r.Balanced) {symbol : String} {d : Desk}
    (hd : r.desk? symbol = some d) (inRange : Holding.flat.BooksExactly (r.tradesOf symbol)) :
    d.quoter.position.toInt =
      ((r.tradesOf symbol).map fun t => t.signedQuantity.toInt).sum := by
  rw [h.position symbol d hd, (Holding.ofTrades_totals inRange).1]

theorem balanced_same {r r' : Replay} (same : SameBooks r r') (h : r.Balanced) : r'.Balanced := by
  obtain ⟨_, desks, ledger, trades⟩ := same
  constructor
  case position =>
    intro symbol d hd
    rw [desk?, ← desks] at hd
    rw [tradesOf, ← trades]
    exact h.position symbol d hd
  case holding =>
    intro symbol
    rw [← ledger, desk?, ← desks, tradesOf, ← trades]
    exact h.holding symbol
  case unquoted =>
    intro symbol hd
    rw [desk?, ← desks] at hd
    rw [tradesOf, ← trades]
    exact h.unquoted symbol hd
  case profits =>
    rw [← trades, ← ledger]
    exact h.profits

/-- A desk put in the place of one with the same position makes no difference to the books. -/
theorem balanced_setDesk {r : Replay} (h : r.Balanced) {symbol : String} {d d' : Desk}
    (hd : r.desk? symbol = some d) (same : d'.quoter.position = d.quoter.position) :
    (r.setDesk symbol d').Balanced where
  position other e he := by
    rw [desk?_setDesk] at he
    split at he
    next here =>
      obtain rfl : d' = e := Option.some.inj he
      rw [same, here]
      exact h.position symbol d hd
    next => exact h.position other e he
  holding other := by
    have held := h.holding other
    rw [desk?_setDesk]
    split
    next here => rw [here, hd] at held; rw [here]; exact held
    next => exact held
  unquoted other he := by
    rw [desk?_setDesk] at he
    split at he
    next => exact absurd he (by simp)
    next => exact h.unquoted other he
  profits := h.profits

/-- A trade enters the desk, the ledger, the list of trades and that of profits at once. -/
theorem balanced_book {r : Replay} (h : r.Balanced) {d : Desk} {t : Trade}
    (hd : r.desk? t.symbol = some d) : (r.book d t).Balanced where
  position symbol e he := by
    rw [desk?_book] at he
    rw [tradesOf_book]
    split at he
    next here =>
      obtain rfl : d.onTrade t = e := Option.some.inj he
      rw [if_pos here.symm, here, Holding.ofTrades_append]
      change d.quoter.position + _ = (Holding.ofTrades (r.tradesOf t.symbol)).position + _
      rw [h.position t.symbol d hd]
    next other =>
      rw [if_neg (Ne.symm other)]
      exact h.position symbol e he
  holding symbol := by
    rw [holding?_book, desk?_book, tradesOf_book]
    by_cases here : symbol = t.symbol
    · rw [if_pos here, if_pos here, if_pos here.symm, here, h.ledger_holding hd,
        Holding.ofTrades_append]
      rfl
    · rw [if_neg here, if_neg here, if_neg (Ne.symm here)]
      exact h.holding symbol
  unquoted symbol he := by
    rw [desk?_book] at he
    split at he
    next => exact absurd he (by simp)
    next other =>
      rw [tradesOf_book, if_neg (Ne.symm other)]
      exact h.unquoted symbol he
  profits := profits_book h.profits t

/-- A quoter that is added holds nothing, and nothing was traded in its symbol. -/
theorem balanced_addQuoter {r r' : Replay} {q : Quoter} (h : r.Balanced) (fresh : q.IsFresh)
    (added : r.addQuoter q = .ok r') : r'.Balanced := by
  have absent := (addQuoter_ok added).1
  have none_traded := h.unquoted q.symbol absent
  have traded : ∀ symbol, r'.tradesOf symbol = r.tradesOf symbol := by
    intro symbol
    rw [tradesOf, trades_addQuoter added, ← tradesOf]
  constructor
  case position =>
    intro symbol d hd
    rw [desk?_addQuoter added] at hd
    rw [traded]
    split at hd
    next here =>
      obtain rfl : Desk.new r.settings.volatility q = d := Option.some.inj hd
      rw [here, none_traded]
      exact fresh.1
    next => exact h.position symbol d hd
  case holding =>
    intro symbol
    rw [holding?_addQuoter added, desk?_addQuoter added, traded]
    split
    next here =>
      have held := h.holding q.symbol
      rw [absent] at held
      rw [here, none_traded, Ledger.holding, held]
      rfl
    next => exact h.holding symbol
  case unquoted =>
    intro symbol hd
    rw [desk?_addQuoter added] at hd
    rw [traded]
    split at hd
    next => exact absurd hd (by simp)
    next => exact h.unquoted symbol hd
  case profits =>
    rw [trades_addQuoter added]
    exact h.profits.of_history (history_addQuoter added)

theorem balanced_reset {r : Replay} (h : r.Balanced) : r.reset.Balanced where
  position symbol d hd := by
    rw [desk?_reset] at hd
    obtain ⟨d₀, _, rfl⟩ := Option.map_eq_some_iff.1 hd
    rfl
  holding symbol := by
    change (r.ledger.holdings.map fun _ _ => Holding.flat).find? symbol = _
    rw [Table.find?_map, desk?_reset, h.holding]
    cases r.desk? symbol <;> rfl
  unquoted _ _ := rfl
  profits := profits_empty rfl

theorem kept_balanced : Kept Operation.IsFresh Balanced := by
  apply Kept.of_trading
  case same => exact fun r r' => balanced_same
  case quote =>
    intro r t d hd h
    refine balanced_setDesk h hd ?_
    rw [Desk.quote_quoter, Quoter.quote_position, Desk.observe_quoter]
  case book =>
    intro r o now d t hd ht h
    refine balanced_book h ?_
    rw [(Desk.tradeOf_of_trade? ht).symbol]
    exact hd
  case addQuoter => exact fun q fresh r r' h => balanced_addQuoter h fresh
  case reset => exact fun r => balanced_reset

theorem balanced_empty (settings : EngineSettings) : (empty settings).Balanced where
  position _ _ hd := by simp [desk?, empty, Table.find?_empty] at hd
  holding _ := rfl
  unquoted _ _ := rfl
  profits := profits_empty rfl

theorem balanced_new {settings : EngineSettings} {quoters : List QuoterSettings} {r : Replay}
    (h : Replay.new settings quoters = .ok r) : r.Balanced :=
  induct_new h (balanced_empty settings) fun _ _ _ _ balanced =>
    balanced_addQuoter balanced ⟨rfl, rfl⟩

end Replay

namespace Session

variable {σ : Type} [Cache.Store σ]

theorem balanced_after {settings : Settings} {cache : σ} {s : Session σ}
    (started : start settings cache = .ok s) {ops : List Operation}
    (fresh : ∀ op ∈ ops, op.IsFresh) (w : Readings) : (s.after ops w).replay.Balanced :=
  kept_after Replay.kept_balanced fresh (Replay.balanced_new (start_ok started).2) w

/-- **The books balance after any operations.** The ledger knows the symbols that are registered. In
each of them the quoter's position is the ledger's, the cash is the sum of the cash flows of the
symbol's trades in their order, and the other totals are those of these trades unless an addition
left its range. Each trade has a profit listed at its place, the sum of all cash flows up to it. -/
theorem books_after {settings : Settings} {cache : σ} {s : Session σ}
    (started : start settings cache = .ok s) {ops : List Operation}
    (fresh : ∀ op ∈ ops, op.IsFresh) (w : Readings) :
    let r := (s.after ops w).replay
    (∀ symbol, symbol ∈ r.ledger.holdings.keys ↔ symbol ∈ settings.registered ops) ∧
    (∀ symbol ∈ settings.registered ops, ∃ d h, r.desk? symbol = some d ∧
      r.ledger.holdings.find? symbol = some h ∧ d.quoter.position = h.position ∧
      h.cash = Performance.sum ((r.tradesOf symbol).map Trade.cashFlow) ∧
      (Holding.flat.BooksExactly (r.tradesOf symbol) →
        h.position.toInt =
          ((r.tradesOf symbol).map fun t => (t.side.sign * t.quantity.toInt64).toInt).sum ∧
        h.volume.toNat = ((r.tradesOf symbol).map fun t => t.quantity.toNat).sum ∧
        h.buys.toNat = (r.tradesOf symbol).countP (fun t => t.side = .buy) ∧
        h.sells.toNat = (r.tradesOf symbol).countP (fun t => t.side = .sell))) ∧
    r.ledger.history.size = r.trades.size ∧
    (∀ i t, r.trades[i]? = some t → r.ledger.history[i]? = some (PnlPoint.mk t.timestamp
      (Performance.sum ((r.trades.toList.take (i + 1)).map Trade.cashFlow)))) := by
  intro r
  have balanced : r.Balanced := balanced_after started fresh w
  have quoted := quotes_after started ops w
  refine ⟨?_, ?_, balanced.profits.size, ?_⟩
  · intro symbol
    rw [Table.mem_keys, balanced.holding, Option.isSome_map, ← quoted]
    rfl
  · intro symbol registered
    have known := (quoted symbol).2 registered
    rw [Replay.quotes_eq_isSome] at known
    obtain ⟨d, hd⟩ := Option.isSome_iff_exists.1 known
    have held := balanced.holding symbol
    rw [hd] at held
    refine ⟨d, _, hd, held, balanced.position symbol d hd, Holding.ofTrades_cash _, ?_⟩
    exact Holding.ofTrades_totals
  · intro i t known
    rw [balanced.profits.history, known]
    rfl

/-- The symbol that trades on both sides of a reset and beside one that is added. -/
theorem books_after_sample :
    (∀ op ∈ Sample.operations, op.IsFresh) ∧ "B" ∈ Sample.settings.registered Sample.operations ∧
    ∃ r, (Sample.session.after Sample.operations Sample.clock).replay = r ∧
      Holding.flat.BooksExactly (r.tradesOf "B") ∧ (r.tradesOf "B").length = 3 ∧
      r.ledger.history.size = r.trades.size ∧
      ∃ h, r.ledger.holdings.find? "B" = some h ∧
        h.position.toInt =
          ((r.tradesOf "B").map fun t => (t.side.sign * t.quantity.toInt64).toInt).sum := by
  have fresh : ∀ op ∈ Sample.operations, op.IsFresh := by
    simp [Sample.operations, Operation.IsFresh, Quoter.IsFresh, Quoter.new]
  have registered : "B" ∈ Sample.settings.registered Sample.operations := by
    simp [Settings.registered, Sample.settings]
  refine ⟨fresh, registered, _, rfl, ?_⟩
  obtain ⟨_, held, sized, _⟩ := books_after Sample.started fresh Sample.clock
  obtain ⟨_, h, _, known, _, _, totals⟩ := held "B" registered
  have inRange : Holding.flat.BooksExactly
      ((Sample.session.after Sample.operations Sample.clock).replay.tradesOf "B") := by
    decide +kernel
  exact ⟨inRange, by decide +kernel, sized, h, known, (totals inRange).1⟩

end Session

end MarketMaker
