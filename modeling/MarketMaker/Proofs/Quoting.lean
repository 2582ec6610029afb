import MarketMaker.Proofs.Attempts
import MarketMaker.Proofs.Inventory

/-!
# A quoter at work

What can be asked of a quoter is to answer a tick, to take a trade into its position, whoever's trade
that is, and to start over. What one answer looks like is seen from the quoter that gives it
(`Quoter.disciplined_quote`), wherever its position was taken. The ids of its orders are seen from all
it was asked: each request carries the count on from where the one before left it, or starts it again
(`Quoter.Shift.numbered_serve`).
-/

namespace MarketMaker.Quoter

/-! ## One answer -/

/-- How a quoter that was made from settings, for lots of some size, answers a tick. -/
structure Disciplined (settings : QuoterSettings) (lot : UInt64) (q : Quoter) (t : Tick)
    (now : Int64) : Prop where
  /-- At most one order to buy, then at most one order to sell. -/
  sides : ((q.quote t now).1.map Order.side).Sublist [.buy, .sell]
  each : ∀ o ∈ (q.quote t now).1,
    o.kind = .limit ∧ o.symbol = settings.symbol ∧ o.quantity = lot ∧ o.timestamp = now
  uncrossed : ∀ bid ∈ (q.quote t now).1, ∀ ask ∈ (q.quote t now).1,
    bid.side = .buy → ask.side = .sell → bid.price < ask.price
  buys : ∀ o ∈ (q.quote t now).1, o.side = .buy →
    q.position.toInt < settings.maxPosition.toInt ∧ 0.0 < o.price
  /-- The most negative word has no counterpart above zero to be compared with. -/
  sells : ∀ o ∈ (q.quote t now).1, o.side = .sell →
    Int64.minValue < settings.maxPosition → -settings.maxPosition.toInt < q.position.toInt
  silent : ¬(0.0 < t.bid ∧ 0.0 < t.ask) → q.quote t now = ([], q)
  position : (q.quote t now).2.position = q.position
  /-- Where there is a market, no side is left out that is wanted. -/
  complete : 0.0 < t.bid ∧ 0.0 < t.ask →
    (q.quotesBid t = true → .buy ∈ (q.quote t now).1.map Order.side) ∧
    (q.quotesAsk t = true → .sell ∈ (q.quote t now).1.map Order.side)

variable {q : Quoter} {t : Tick} {now : Int64}

theorem hasMarket_iff : t.hasMarket = true ↔ 0.0 < t.bid ∧ 0.0 < t.ask := by
  rw [Tick.hasMarket, Bool.and_eq_true, decide_eq_true_iff, decide_eq_true_iff]

/-- The sides of an answer are those that are wanted, that to buy first. -/
theorem sides_quote (market : t.hasMarket = true) (now : Int64) :
    (q.quote t now).1.map Order.side =
      (if q.quotesBid t then [.buy] else []) ++ (if q.quotesAsk t then [.sell] else []) := by
  unfold quote make
  rw [if_pos market]
  cases q.quotesBid t <;> cases q.quotesAsk t <;> rfl

theorem timestamp_of_mem_quote {o : Order} (h : o ∈ (q.quote t now).1) : o.timestamp = now := by
  unfold quote at h
  split at h
  next =>
    rcases List.mem_append.1 h with bid | ask
    · rw [(mem_make bid).2]
      rfl
    · rw [(mem_make ask).2]
      rfl
  next => exact absurd h List.not_mem_nil

theorem disciplined_quote (q : Quoter) (t : Tick) (now : Int64) :
    q.Disciplined q.settings q.lotSize t now where
  sides := by
    cases market : t.hasMarket with
    | false =>
      rw [q.quote_of_no_market market now]
      exact List.nil_sublist _
    | true =>
      rw [sides_quote market]
      cases q.quotesBid t <;> cases q.quotesAsk t <;> decide
  each o member :=
    have quoted := quoted_of_mem member
    ⟨quoted.kind, quoted.symbol, quoted.quantity, timestamp_of_mem_quote member⟩
  uncrossed bid hb ask ha buy sell := by
    obtain ⟨_, below⟩ := (quoted_of_mem hb).bid buy
    obtain ⟨wanted, above⟩ := (quoted_of_mem ha).ask sell
    rw [below, above]
    exact bidPrice_lt_askPrice wanted
  buys o member buy := by
    obtain ⟨wanted, _⟩ := (quoted_of_mem member).bid buy
    exact ⟨Int64.lt_iff_toInt_lt.1 (lt_of_quotesBid wanted),
      ((quoted_of_mem member).isPrice_of_buy buy).2⟩
  sells o member sell least := by
    obtain ⟨wanted, _⟩ := (quoted_of_mem member).ask sell
    rw [← Word.toInt_neg_of_lt least]
    exact Int64.lt_iff_toInt_lt.1 (lt_of_quotesAsk wanted)
  silent none := by
    rw [← hasMarket_iff, Bool.not_eq_true] at none
    exact q.quote_of_no_market none now
  position := q.quote_position t now
  complete market := by
    rw [sides_quote (hasMarket_iff.2 market)]
    exact ⟨fun wanted => by simp [wanted], fun wanted => by simp [wanted]⟩

/-! ## Many requests -/

/-- What can be asked of a quoter. -/
inductive Request where
  | quote (t : Tick) (now : Int64)
  | trade (t : Trade)
  | reset

/-- A quoter, with the orders that it made since it was new or was last reset, in their order. -/
structure Shift where
  quoter : Quoter
  orders : List Order

namespace Shift

/-- Does what is asked. -/
def serve (s : Shift) : Request → Shift
  | .quote t now => ⟨(s.quoter.quote t now).2, s.orders ++ (s.quoter.quote t now).1⟩
  | .trade t => { s with quoter := s.quoter.onTrade t }
  | .reset => ⟨s.quoter.reset, []⟩

/-- What requests lead to, of a quoter that made no order yet. -/
def after (q : Quoter) (requests : List Request) : Shift :=
  requests.foldl serve ⟨q, []⟩

/-- Orders that are numbered from one, by a quoter that knows the last of the numbers and what it was
made with. -/
structure Numbered (q : Quoter) (s : Shift) : Prop where
  reset : s.quoter.reset = q.reset
  ids : s.orders.map Order.id = (List.range' 1 s.orders.length).map UInt64.ofNat
  made : s.quoter.made = .ofNat s.orders.length

end Shift

/-- The ids of what a quoter makes follow the number that it made before. -/
theorem Numbers.ids {orders : List Order} {made : UInt64} (h : q.Numbers orders made) :
    orders.map Order.id = (List.range' 1 orders.length).map fun i => q.made + .ofNat i := by
  cases h with
  | none => rfl
  | one id => exact congrArg ([·]) id
  | both _ _ first second =>
    have next : q.made + 1 + 1 = q.made + .ofNat 2 := UInt64.add_assoc ..
    rw [List.map_cons, List.map_cons, first, second, next]
    rfl

namespace Shift

variable {s : Shift}

/-- Numbers that follow those of earlier orders go on from one without a gap. -/
theorem Numbered.ids_append (h : s.Numbered q) {orders : List Order} {made : UInt64}
    (numbers : s.quoter.Numbers orders made) :
    (s.orders ++ orders).map Order.id =
      (List.range' 1 (s.orders ++ orders).length).map UInt64.ofNat := by
  have next : ∀ i, s.quoter.made + .ofNat i = .ofNat (s.orders.length + i) := by
    intro i
    rw [h.made, UInt64.ofNat_add]
  have later : (List.range' 1 orders.length).map (fun i => s.quoter.made + .ofNat i) =
      (List.range' (1 + s.orders.length) orders.length).map UInt64.ofNat := by
    simp only [next]
    rw [Nat.add_comm 1, ← List.map_add_range', List.map_map]
    rfl
  rw [List.map_append, h.ids, numbers.ids, later, List.length_append, ← List.range'_append_1,
    List.map_append]

theorem numbered_serve (h : s.Numbered q) (request : Request) : (s.serve request).Numbered q := by
  cases request with
  | quote t now =>
    have numbers := s.quoter.numbers_quote t now
    refine ⟨(s.quoter.quote_reset t now).trans h.reset, h.ids_append numbers, ?_⟩
    change (s.quoter.quote t now).2.made = .ofNat (s.orders ++ _).length
    rw [numbers.made_eq, h.made, List.length_append, UInt64.ofNat_add]
  | trade t => exact ⟨h.reset, h.ids, h.made⟩
  | reset => exact ⟨h.reset, rfl, rfl⟩

theorem numbered_after (settings : QuoterSettings) (lot : UInt64) (improvement : Float)
    (requests : List Request) :
    (after (.new settings lot improvement) requests).Numbered (.new settings lot improvement) := by
  suffices serves : ∀ s : Shift, s.Numbered (.new settings lot improvement) →
      (requests.foldl serve s).Numbered (.new settings lot improvement) from
    serves _ ⟨rfl, rfl, rfl⟩
  induction requests with
  | nil => exact fun s h => h
  | cons request rest ih => exact fun s h => ih _ (numbered_serve h request)

end Shift

/-- **A quoter keeps its discipline.** Whatever ticks, trades and resets came before, it answers a tick
with at most one order to buy and then at most one to sell, for a lot each, the one below the other.
It buys only below its largest position and at a price above zero, and sells only above the opposite
of that position; without a market it does nothing; and an answer leaves the position where it was.
Since it was new or last reset it numbered its orders from one without a gap, as long as the numbers
are words. -/
theorem quotes_disciplined (settings : QuoterSettings) (lot : UInt64) (improvement : Float)
    (requests : List Request) :
    let s := Shift.after (.new settings lot improvement) requests
    (∀ t now, s.quoter.Disciplined settings lot t now) ∧
    (s.orders.length < UInt64.size →
      s.orders.map (fun o => o.id.toNat) = List.range' 1 s.orders.length ∧
      s.quoter.made.toNat = s.orders.length) := by
  intro s
  have numbered : s.Numbered _ := Shift.numbered_after settings lot improvement requests
  constructor
  · intro t now
    have own := s.quoter.disciplined_quote t now
    rwa [settings_eq_of_reset numbered.reset, lotSize_eq_of_reset numbered.reset] at own
  · intro fits
    have word : ∀ {n}, n ≤ s.orders.length → (UInt64.ofNat n).toNat = n := fun least =>
      UInt64.toNat_ofNat_of_lt' (Nat.lt_of_le_of_lt least fits)
    constructor
    · change s.orders.map (UInt64.toNat ∘ Order.id) = _
      rw [← List.map_map, numbered.ids, List.map_map]
      refine (List.map_congr_left fun n member => ?_).trans (List.map_id _)
      rw [List.mem_range'_1] at member
      exact word (by omega)
    · rw [numbered.made]
      exact word (Nat.le_refl _)

/-- Four answers: one before the quoter starts over, one without a market and one at the bound. -/
theorem quotes_disciplined_sample :
    let tick := Sample.tick "A"
    let bought : Trade := ⟨7, "A", .buy, 1000, 100.0, 3, 0.0⟩
    let s := Shift.after (.new { symbol := "A" } 100 0.01)
      [.quote tick 1, .reset, .quote tick 2, .quote { tick with bid := 0.0 } 2, .trade bought,
        .quote tick 3]
    s.orders.map Order.side = [.buy, .sell, .sell] ∧
      s.orders.map (fun o => o.id.toNat) = List.range' 1 3 ∧ s.quoter.made.toNat = 3 ∧
      s.quoter.Disciplined { symbol := "A" } 100 tick 4 := by
  intro tick bought s
  obtain ⟨disciplined, numbered⟩ := quotes_disciplined { symbol := "A" } 100 0.01
    [.quote tick 1, .reset, .quote tick 2, .quote { tick with bid := 0.0 } 2, .trade bought,
      .quote tick 3]
  have sides : s.orders.map Order.side = [.buy, .sell, .sell] := by decide +kernel
  have three : s.orders.length = 3 := (List.length_map Order.side).symm.trans (by rw [sides]; rfl)
  change s.orders.length < UInt64.size → _ at numbered
  rw [three] at numbered
  obtain ⟨ids, made⟩ := numbered (by decide)
  exact ⟨sides, ids, made, disciplined tick 4⟩

end MarketMaker.Quoter
