import MarketMaker.Proofs.Bookkeeping
import Mathlib.Algebra.BigOperators.Group.List.Basic

/-!
# Figures and books

The figures of a replay are worked out in one pass over its trades; the ledger was kept trade by trade,
each symbol apart. Both come to the same (`Session.figures_agree`): the profits because both add up the
same cash flows in the same order, the counts because every trade is of one symbol that the ledger
knows, so that adding up symbol by symbol (`sum_by_key`) misses none and counts none twice.
-/

namespace MarketMaker

/-! ## Adding up by keys -/

/-- Of distinct keys, one at most is a given one. -/
theorem sum_at_key {κ : Type} [DecidableEq κ] {keys : List κ} (distinct : keys.Nodup) {k : κ}
    (known : k ∈ keys) (n : Nat) : (keys.map fun k' => if k = k' then n else 0).sum = n := by
  induction keys with
  | nil => exact absurd known List.not_mem_nil
  | cons k' ks ih =>
    obtain ⟨absent, rest⟩ := List.nodup_cons.1 distinct
    rw [List.map_cons, List.sum_cons]
    rcases List.mem_cons.1 known with rfl | later
    · have others : (ks.map fun k' => if k = k' then n else 0) = ks.map fun _ => 0 := by
        refine List.map_congr_left fun k' member => if_neg ?_
        rintro rfl
        exact absent member
      rw [if_pos rfl, others]
      simp
    · have other : k ≠ k' := by
        rintro rfl
        exact absent later
      rw [if_neg other, ih rest later, Nat.zero_add]

/-- What is added up key by key is added up once, if every element has one of the keys. -/
theorem sum_by_key {α κ : Type} [DecidableEq κ] {keys : List κ} (distinct : keys.Nodup) (key : α → κ)
    {xs : List α} (known : ∀ x ∈ xs, key x ∈ keys) (f : α → Nat) :
    (keys.map fun k => ((xs.filter fun x => key x = k).map f).sum).sum = (xs.map f).sum := by
  induction xs with
  | nil => simp
  | cons x xs ih =>
    have split : ∀ k, (((x :: xs).filter fun x => key x = k).map f).sum =
        (if key x = k then f x else 0) + ((xs.filter fun x => key x = k).map f).sum := by
      intro k
      by_cases here : key x = k
      · simp [here]
      · simp [here]
    simp only [split]
    rw [List.sum_map_add, sum_at_key distinct (known x List.mem_cons_self),
      ih fun y member => known y (List.mem_cons_of_mem _ member), List.map_cons, List.sum_cons]

namespace Table

theorem nodup_keys {α : Type} (t : Table α) : t.keys.Nodup := by
  have increasing : t.keys.Pairwise (· < ·) := List.pairwise_map.2 t.sorted
  refine increasing.imp ?_
  rintro a _ less rfl
  exact String.lt_irrefl _ less

end Table

/-! ## The metrics -/

namespace Metrics

theorem of_ne_nil {trades : List Trade} (some : trades ≠ []) (history : List PnlPoint)
    (activity : Activity) :
    (Metrics.of trades history activity).trades = trades.length ∧
    (Metrics.of trades history activity).totalPnl = Performance.sum (trades.map Trade.cashFlow) ∧
    (Metrics.of trades history activity).realizedPnl =
      (Metrics.of trades history activity).totalPnl := by
  have nonempty : trades.isEmpty = false := by simpa using some
  unfold Metrics.of
  rw [nonempty]
  exact ⟨rfl, rfl, rfl⟩

theorem trades_of (trades : List Trade) (history : List PnlPoint) (activity : Activity) :
    (Metrics.of trades history activity).trades = trades.length := by
  cases trades with
  | nil => rfl
  | cons t ts => exact (of_ne_nil (by simp) history activity).1

theorem volume_of (trades : List Trade) (history : List PnlPoint) (activity : Activity) :
    (Metrics.of trades history activity).volume =
      trades.foldl (fun v t => v + t.quantity) 0 := by
  cases trades with
  | nil => rfl
  | cons t ts => rfl

/-- Volumes add up as numbers do, as long as they stay in range. -/
theorem toNat_volume {trades : List Trade} {v : UInt64}
    (inRange : v.toNat + (trades.map fun t => t.quantity.toNat).sum < UInt64.size) :
    (trades.foldl (fun v t => v + t.quantity) v).toNat =
      v.toNat + (trades.map fun t => t.quantity.toNat).sum := by
  induction trades generalizing v with
  | nil => simp
  | cons t ts ih =>
    rw [List.map_cons, List.sum_cons] at inRange
    have sum : (v + t.quantity).toNat = v.toNat + t.quantity.toNat :=
      Word.toNat_add_of_range (by omega)
    rw [List.foldl_cons, ih (by omega), sum, List.map_cons, List.sum_cons, Nat.add_assoc]

end Metrics

/-! ## Books that balance -/

namespace Replay

variable {r : Replay}

/-- What the ledger holds is what the trades of the symbol come to. -/
theorem Balanced.holding_of_mem (h : r.Balanced) {e : String × Holding}
    (member : e ∈ r.ledger.holdings.entries) : e.2 = Holding.ofTrades (r.tradesOf e.1) := by
  have found := (r.ledger.holdings.find?_eq_some_iff e.1 e.2).2 member
  rw [h.holding] at found
  obtain ⟨_, _, held⟩ := Option.map_eq_some_iff.1 found
  exact held.symm

/-- The ledger knows the symbol of every trade. -/
theorem Balanced.known (h : r.Balanced) {t : Trade} (member : t ∈ r.trades.toList) :
    t.symbol ∈ r.ledger.holdings.keys := by
  rw [Table.mem_keys, h.holding, Option.isSome_map]
  cases hd : r.desk? t.symbol with
  | some _ => rfl
  | none =>
    have traded : t ∈ r.tradesOf t.symbol := List.mem_filter.2 ⟨member, by simp⟩
    rw [h.unquoted _ hd] at traded
    exact absurd traded List.not_mem_nil

/-- What the ledger counts, if it is what is counted of each symbol's trades, is what is counted of
all trades. -/
theorem Balanced.sum_holdings (h : r.Balanced) (count : Holding → Nat) (f : Trade → Nat)
    (counted : ∀ e ∈ r.ledger.holdings.entries,
      count e.2 = ((r.tradesOf e.1).map f).sum) :
    (r.ledger.holdings.entries.map fun e => count e.2).sum = (r.trades.toList.map f).sum := by
  calc (r.ledger.holdings.entries.map fun e => count e.2).sum
      = (r.ledger.holdings.entries.map fun e => ((r.tradesOf e.1).map f).sum).sum := by
        rw [List.map_congr_left counted]
    _ = (r.ledger.holdings.keys.map fun k => ((r.tradesOf k).map f).sum).sum := by
        rw [Table.keys, List.map_map]
        rfl
    _ = (r.trades.toList.map f).sum :=
        sum_by_key r.ledger.holdings.nodup_keys Trade.symbol (fun _ => h.known) f

/-- Every trade is a purchase or a sale. -/
theorem buys_add_sells (ts : List Trade) :
    (ts.countP fun t => t.side = .buy) + (ts.countP fun t => t.side = .sell) =
      (ts.map fun _ => 1).sum := by
  induction ts with
  | nil => rfl
  | cons t ts ih =>
    rw [List.map_cons, List.sum_cons, ← ih, List.countP_cons, List.countP_cons]
    cases t.side with
    | buy => simp; omega
    | sell => simp; omega

/-- The last profit listed is the sum of all cash flows. -/
theorem Balanced.last_profit (h : r.Balanced) (traded : r.trades ≠ #[]) :
    r.ledger.history.back?.map PnlPoint.cumulative =
      some (Performance.sum (r.trades.toList.map Trade.cashFlow)) := by
  have size := h.profits.size
  have pnl := h.profits.pnl
  rw [Ledger.pnl] at pnl
  cases last : r.ledger.history.back? with
  | none =>
    rw [Array.back?_eq_none_iff.1 last] at size
    exact absurd (Array.size_eq_zero_iff.1 size.symm) traded
  | some p =>
    rw [last] at pnl
    exact congrArg some pnl

end Replay

namespace Session

variable {σ : Type} [Cache.Store σ]

/-- **The figures and the books agree.** Once there are trades, the profit of the metrics is the last
one listed, and there are as many trades as profits listed. Unless an addition left its range, they
are as many as the purchases and sales of all symbols, and the volume is that of all symbols. As long
as there are none, every figure is zero and nothing is held. -/
theorem figures_agree {settings : Settings} {cache : σ} {s : Session σ}
    (started : start settings cache = .ok s) {ops : List Operation}
    (fresh : ∀ op ∈ ops, op.IsFresh) (w : Readings) :
    let r := (s.after ops w).replay
    (r.trades ≠ #[] →
      r.ledger.history.back?.map PnlPoint.cumulative = some r.metrics.totalPnl ∧
      r.ledger.history.back?.map PnlPoint.cumulative = some r.metrics.realizedPnl ∧
      r.metrics.trades = r.trades.size ∧ r.metrics.trades = r.ledger.history.size) ∧
    ((∀ symbol ∈ settings.registered ops, Holding.flat.BooksExactly (r.tradesOf symbol)) →
      r.metrics.trades =
        (r.ledger.holdings.entries.map fun e => e.2.buys.toNat + e.2.sells.toNat).sum ∧
      ((r.trades.toList.map fun t => t.quantity.toNat).sum < UInt64.size →
        r.metrics.volume.toNat =
          (r.ledger.holdings.entries.map fun e => e.2.volume.toNat).sum)) ∧
    (r.trades = #[] → r.metrics = .zero ∧
      (∀ e ∈ r.ledger.holdings.entries, e.2 = .flat) ∧ r.ledger.history = #[]) := by
  intro r
  have balanced : r.Balanced := balanced_after started fresh w
  have registered : ∀ e ∈ r.ledger.holdings.entries, e.1 ∈ settings.registered ops := by
    intro e member
    have found := (r.ledger.holdings.find?_eq_some_iff e.1 e.2).2 member
    rw [balanced.holding] at found
    obtain ⟨_, hd, _⟩ := Option.map_eq_some_iff.1 found
    rw [← quotes_after started ops w, Replay.quotes_eq_isSome, hd]
    rfl
  refine ⟨?_, ?_, ?_⟩
  · intro traded
    have nonempty : r.trades.toList ≠ [] := by simpa using traded
    obtain ⟨count, total, realized⟩ :=
      Metrics.of_ne_nil nonempty r.ledger.history.toList r.activity
    have last := balanced.last_profit traded
    refine ⟨?_, ?_, count, ?_⟩
    · rw [last, Replay.metrics, total]
    · rw [last, Replay.metrics, realized, total]
    · rw [balanced.profits.size]
      exact count
  · intro inRange
    have totals : ∀ e ∈ r.ledger.holdings.entries, _ := fun e member =>
      Holding.ofTrades_totals (inRange e.1 (registered e member))
    refine ⟨?_, ?_⟩
    · rw [Replay.metrics, Metrics.trades_of, balanced.sum_holdings
        (fun h => h.buys.toNat + h.sells.toNat) (fun _ => 1)]
      · simp
      · intro e member
        obtain ⟨_, _, buys, sells⟩ := totals e member
        rw [balanced.holding_of_mem member, buys, sells, Replay.buys_add_sells]
    · intro small
      have fits : (0 : UInt64).toNat + (r.trades.toList.map fun t => t.quantity.toNat).sum <
          UInt64.size := by
        rwa [UInt64.toNat_zero, Nat.zero_add]
      have volume := Metrics.toNat_volume fits
      rw [Replay.metrics, Metrics.volume_of, volume, UInt64.toNat_zero, Nat.zero_add,
        balanced.sum_holdings (fun h => h.volume.toNat) (fun t => t.quantity.toNat)]
      intro e member
      obtain ⟨_, volume, _⟩ := totals e member
      rw [balanced.holding_of_mem member, volume]
  · intro none
    refine ⟨?_, ?_, ?_⟩
    · rw [Replay.metrics, none]
      rfl
    · intro e member
      rw [balanced.holding_of_mem member, Replay.tradesOf, none]
      rfl
    · have size := balanced.profits.size
      rw [none] at size
      exact Array.size_eq_zero_iff.1 size

/-- Three symbols that trade, one of them on both sides, after a reset. -/
theorem figures_agree_sample :
    (∀ op ∈ Sample.operations, op.IsFresh) ∧
    ∃ r, (Sample.session.after Sample.operations Sample.clock).replay = r ∧ r.trades ≠ #[] ∧
      (∀ symbol ∈ Sample.settings.registered Sample.operations,
        Holding.flat.BooksExactly (r.tradesOf symbol)) ∧
      (r.trades.toList.map fun t => t.quantity.toNat).sum < UInt64.size ∧
      r.ledger.history.back?.map PnlPoint.cumulative = some r.metrics.totalPnl ∧
      r.metrics.trades =
        (r.ledger.holdings.entries.map fun e => e.2.buys.toNat + e.2.sells.toNat).sum ∧
      r.metrics.volume.toNat = (r.ledger.holdings.entries.map fun e => e.2.volume.toNat).sum := by
  have fresh : ∀ op ∈ Sample.operations, op.IsFresh := by
    simp [Sample.operations, Operation.IsFresh, Quoter.IsFresh, Quoter.new]
  have traded : (Sample.session.after Sample.operations Sample.clock).replay.trades.size = 5 := by
    decide +kernel
  have some : (Sample.session.after Sample.operations Sample.clock).replay.trades ≠ #[] := by
    intro none
    rw [none] at traded
    exact absurd traded (by decide)
  have inRange : ∀ symbol ∈ Sample.settings.registered Sample.operations,
      Holding.flat.BooksExactly
        ((Sample.session.after Sample.operations Sample.clock).replay.tradesOf symbol) := by
    decide +kernel
  have small : ((Sample.session.after Sample.operations Sample.clock).replay.trades.toList.map
      fun t => t.quantity.toNat).sum < UInt64.size := by
    decide +kernel
  obtain ⟨profits, counts, _⟩ := figures_agree Sample.started fresh Sample.clock
  exact ⟨fresh, _, rfl, some, inRange, small, (profits some).1, (counts inRange).1,
    (counts inRange).2 small⟩

end Session

end MarketMaker
