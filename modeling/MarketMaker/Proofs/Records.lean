import MarketMaker.Market.Json
import MarketMaker.Proofs.Json.Record

/-!
# Ticks, orders and trades read back

What is written of a tick, an order, a trade or a point of profit and loss is read as the same again, as
far as the digits of its doubles are (`records_read_back`). A double that is infinite or no number has no
digits: where one must stand the text is refused, and the price of a trade that a tick carries is lost
with it.
-/

namespace MarketMaker

open Json (ReadsBack)

/-- The values of a record type are read back from their texts if the doubles in them are, and refused
if one of these is infinite or no number. -/
structure Json.RoundTrips {α : Type} (toJson : α → Json) (ofJson? : Json → Option α)
    (doubles : α → List Float) : Prop where
  reads : ∀ a, (∀ x ∈ doubles a, ReadsBack x) → (parse? (toJson a).compact).bind ofJson? = some a
  refuses : ∀ a, (∃ x ∈ doubles a, x.isFinite = false) →
    (parse? (toJson a).compact).bind ofJson? = none

/-! ## Choices -/

@[simp] theorem Side.ofJson?_toJson (s : Side) : Side.ofJson? s.toJson = some s := by
  cases s <;> rfl

@[simp] theorem OrderKind.ofJson?_toJson (k : OrderKind) : OrderKind.ofJson? k.toJson = some k := by
  cases k <;> rfl

/-! ## Orders, trades, profit and loss -/

namespace Order

theorem isWritten_toJson (o : Order) : o.toJson.IsWritten := by
  simp [toJson, members, names, Side.toJson, OrderKind.toJson]

theorem ofJson?_toJson (o : Order) :
    ofJson? o.toJson = (Json.ofFloat o.price).asFloat?.map fun price => { o with price } := by
  have distinct : (o.members.map Prod.fst).Nodup := by
    change names.Nodup
    decide
  unfold ofJson? toJson
  rw [Json.slots?_record distinct]
  simp [members, names, List.lookup, Json.required, Option.map_eq_bind]

theorem roundTrips : Json.RoundTrips toJson ofJson? fun o => [o.price] where
  reads o back := by
    have price : ReadsBack o.price := back _ List.mem_cons_self
    rw [Json.bind_parse?_compact o.isWritten_toJson, ofJson?_toJson, price.asFloat?]
    rfl
  refuses o := by
    rintro ⟨_, member, infinite⟩
    obtain rfl := List.mem_singleton.1 member
    rw [Json.bind_parse?_compact o.isWritten_toJson, ofJson?_toJson,
      Json.asFloat?_of_not_isFinite infinite]
    rfl

end Order

namespace Trade

theorem isWritten_toJson (t : Trade) : t.toJson.IsWritten := by
  simp [toJson, members, names, Side.toJson]

theorem ofJson?_toJson (t : Trade) :
    ofJson? t.toJson = (Json.ofFloat t.price).asFloat?.bind fun price =>
      (Json.ofFloat t.slippage).asFloat?.map fun slippage => { t with price, slippage } := by
  have distinct : (t.members.map Prod.fst).Nodup := by
    change names.Nodup
    decide
  unfold ofJson? toJson
  rw [Json.slots?_record distinct]
  simp [members, names, List.lookup, Json.required, Option.map_eq_bind]

theorem roundTrips : Json.RoundTrips toJson ofJson? fun t => [t.price, t.slippage] where
  reads t back := by
    have price : ReadsBack t.price := back _ List.mem_cons_self
    have slippage : ReadsBack t.slippage := back _ (List.mem_cons_of_mem _ List.mem_cons_self)
    rw [Json.bind_parse?_compact t.isWritten_toJson, ofJson?_toJson, price.asFloat?,
      slippage.asFloat?]
    rfl
  refuses t := by
    rintro ⟨x, member, infinite⟩
    rw [Json.bind_parse?_compact t.isWritten_toJson, ofJson?_toJson]
    rcases List.mem_pair.1 member with rfl | rfl
    · rw [Json.asFloat?_of_not_isFinite infinite, Option.bind_none]
    · rw [Json.asFloat?_of_not_isFinite infinite]
      exact Option.bind_fun_none _

end Trade

namespace PnlPoint

theorem isWritten_toJson (p : PnlPoint) : p.toJson.IsWritten := by
  simp [toJson, names]

theorem ofJson?_toJson (p : PnlPoint) :
    ofJson? p.toJson = (Json.ofFloat p.cumulative).asFloat?.map fun cumulative =>
      { p with cumulative } := by
  unfold ofJson? toJson
  rw [Json.slots?_record (by change names.Nodup; decide)]
  simp [names, List.lookup, Json.required, Option.map_eq_bind]

theorem roundTrips : Json.RoundTrips toJson ofJson? fun p => [p.cumulative] where
  reads p back := by
    have cumulative : ReadsBack p.cumulative := back _ List.mem_cons_self
    rw [Json.bind_parse?_compact p.isWritten_toJson, ofJson?_toJson, cumulative.asFloat?]
    rfl
  refuses p := by
    rintro ⟨_, member, infinite⟩
    obtain rfl := List.mem_singleton.1 member
    rw [Json.bind_parse?_compact p.isWritten_toJson, ofJson?_toJson,
      Json.asFloat?_of_not_isFinite infinite]
    rfl

end PnlPoint

/-! ## Ticks -/

namespace Tick

theorem nodup_members (t : Tick) : (t.members.map Prod.fst).Nodup := by
  cases price : t.tradePrice <;> cases size : t.tradeSize <;>
    simp [members, quoteNames, price, size]

theorem isWritten_toJson (t : Tick) : t.toJson.IsWritten := by
  cases price : t.tradePrice <;> cases size : t.tradeSize <;>
    simp [toJson, members, quoteNames, price, size]

/-- What a tick carries of a trade stands under its name, if there is any. -/
theorem lookup_members (t : Tick) :
    t.members.lookup "trade_price" = t.tradePrice.map Json.ofFloat ∧
      t.members.lookup "trade_size" = t.tradeSize.map Json.ofWord := by
  cases price : t.tradePrice <;> cases size : t.tradeSize <;>
    simp [members, quoteNames, List.lookup, price, size]

theorem ofJson?_toJson (t : Tick) :
    ofJson? t.toJson = (Json.ofFloat t.bid).asFloat?.bind fun bid =>
      (Json.ofFloat t.ask).asFloat?.bind fun ask =>
        (Json.optional Json.asFloat? (t.tradePrice.map Json.ofFloat)).map fun tradePrice =>
          { t with bid, ask, tradePrice } := by
  obtain ⟨price, size⟩ := t.lookup_members
  unfold ofJson? toJson
  rw [Json.slots?_record t.nodup_members]
  simp only [quoteNames, List.cons_append, List.nil_append, List.map_cons, List.map_nil, price, size,
    Option.bind_eq_bind, Option.bind_some, Json.optional_asWord?]
  simp [members, quoteNames, List.lookup, Json.required, Option.map_eq_bind]

/-- A tick whose prices read back is read back, but for the price of a trade that has no digits. -/
theorem read_of_readsBack {t : Tick} (bid : ReadsBack t.bid) (ask : ReadsBack t.ask)
    (price : ∀ p ∈ t.tradePrice, p.isFinite = true → ReadsBack p) :
    (Json.parse? t.toJson.compact).bind ofJson? =
      some { t with tradePrice := t.tradePrice.filter Float.isFinite } := by
  rw [Json.bind_parse?_compact t.isWritten_toJson, ofJson?_toJson, bid.asFloat?, ask.asFloat?,
    Json.optional_asFloat? price]
  rfl

/-- A tick of which all prices read back is read back. -/
theorem read_eq_self {t : Tick} (bid : ReadsBack t.bid) (ask : ReadsBack t.ask)
    (price : ∀ p ∈ t.tradePrice, ReadsBack p) :
    (Json.parse? t.toJson.compact).bind ofJson? = some t := by
  have read := read_of_readsBack bid ask fun p member _ => price p member
  have kept : t.tradePrice.filter Float.isFinite = t.tradePrice := by
    cases here : t.tradePrice with
    | none => rfl
    | some p => simp [Option.filter, (price p here).isFinite]
  rw [read, kept]

theorem read_of_not_isFinite {t : Tick} (infinite : t.isFinite = false) :
    (Json.parse? t.toJson.compact).bind ofJson? = none := by
  rw [Json.bind_parse?_compact t.isWritten_toJson, ofJson?_toJson]
  rcases Bool.and_eq_false_iff.1 infinite with bid | ask
  · rw [Json.asFloat?_of_not_isFinite bid, Option.bind_none]
  · rw [Json.asFloat?_of_not_isFinite ask]
    exact Option.bind_fun_none _

end Tick

/-- **Records read back.** What is written of an order, a trade or a point of profit and loss is read as
the same, if the digits of each of its doubles bring the reader to that double, and is refused if one of
them is infinite or no number. So is a tick, whatever of a trade it carries; only if the price of that
trade is infinite or no number, the tick is read without it and else as it was. -/
theorem records_read_back :
    (Json.RoundTrips Order.toJson Order.ofJson? fun o => [o.price]) ∧
    (Json.RoundTrips Trade.toJson Trade.ofJson? fun t => [t.price, t.slippage]) ∧
    (Json.RoundTrips PnlPoint.toJson PnlPoint.ofJson? fun p => [p.cumulative]) ∧
    (∀ t : Tick, ReadsBack t.bid → ReadsBack t.ask → (∀ p ∈ t.tradePrice, ReadsBack p) →
      (Json.parse? t.toJson.compact).bind Tick.ofJson? = some t) ∧
    (∀ t : Tick, t.isFinite = false → (Json.parse? t.toJson.compact).bind Tick.ofJson? = none) ∧
    (∀ (t : Tick) (p : Float), ReadsBack t.bid → ReadsBack t.ask → t.tradePrice = some p →
      p.isFinite = false → (Json.parse? t.toJson.compact).bind Tick.ofJson? =
        some { t with tradePrice := none }) := by
  refine ⟨Order.roundTrips, Trade.roundTrips, PnlPoint.roundTrips, ?_, ?_, ?_⟩
  · exact fun t => Tick.read_eq_self
  · exact fun t => Tick.read_of_not_isFinite
  · intro t p bid ask here infinite
    have read := Tick.read_of_readsBack bid ask fun q member finite => by
      rw [here, Option.mem_def, Option.some.injEq] at member
      exact absurd finite (by simp [← member, infinite])
    have lost : t.tradePrice.filter Float.isFinite = none := by
      simp [here, Option.filter, infinite]
    rw [read, lost]

namespace Sample

/-- A tick of a symbol with all kinds of characters, at the ends of the ranges of its words. -/
def spelled : Tick where
  symbol := "\"\\\n\x01é😀"
  bid := -0.0
  ask := 1e22
  bidSize := 18446744073709551615
  askSize := 0
  timestamp := -9223372036854775808
  tradePrice := some 0.25
  tradeSize := some 7

/-- The tick with an infinite bid. -/
def boundless : Tick := { spelled with bid := 1.0 / 0.0 }

/-- The tick with an infinite price of the trade it carries. -/
def overpriced : Tick := { spelled with tradePrice := some (1.0 / 0.0) }

/-- An order at the largest whole number up to which doubles hold all of them. -/
def spelledOrder : Order := ⟨1, "\t", .sell, .limit, 1, 9007199254740992.0, -1⟩

/-- A trade whose slippage is no number. -/
def slipping : Trade := ⟨1, "A", .buy, 1, 0.25, 0, 0.0 / 0.0⟩

end Sample

/-- A tick reads back; with an infinite bid it is refused, and with an infinite price of the trade it
carries it reads back without that. An order and a point of profit and loss read back, and a trade is
refused for its slippage. -/
theorem records_read_back_sample :
    (Json.parse? Sample.spelled.toJson.compact).bind Tick.ofJson? = some Sample.spelled ∧
    (Json.parse? Sample.boundless.toJson.compact).bind Tick.ofJson? = none ∧
    (Json.parse? Sample.overpriced.toJson.compact).bind Tick.ofJson? =
      some { Sample.spelled with tradePrice := none } ∧
    (Json.parse? Sample.spelledOrder.toJson.compact).bind Order.ofJson? = some Sample.spelledOrder ∧
    (Json.parse? Sample.slipping.toJson.compact).bind Trade.ofJson? = none ∧
    (Json.parse? (PnlPoint.mk 5 0.25).toJson.compact).bind PnlPoint.ofJson? = some ⟨5, 0.25⟩ := by
  have bid : ReadsBack (-0.0) := Json.readsBack_iff.2 (by decide +kernel)
  have ask : ReadsBack 1e22 := Json.readsBack_iff.2 (by decide +kernel)
  have price : ReadsBack 0.25 := Json.readsBack_iff.2 (by decide +kernel)
  have limit : ReadsBack 9007199254740992.0 := Json.readsBack_iff.2 (by decide +kernel)
  have infinite : Float.isFinite (1.0 / 0.0) = false := by decide +kernel
  have noNumber : Float.isFinite (0.0 / 0.0) = false := by decide +kernel
  have boundless : Sample.boundless.isFinite = false := by decide +kernel
  obtain ⟨orders, trades, points, ticks, refused, lost⟩ := records_read_back
  refine ⟨?_, refused _ boundless, lost Sample.overpriced _ bid ask rfl infinite, ?_, ?_, ?_⟩
  · refine ticks Sample.spelled bid ask fun p member => ?_
    obtain rfl := Option.some.inj member
    exact price
  · exact orders.reads Sample.spelledOrder (List.forall_mem_singleton.2 limit)
  · exact trades.refuses Sample.slipping
      ⟨_, List.mem_cons_of_mem _ List.mem_cons_self, noNumber⟩
  · exact points.reads ⟨5, 0.25⟩ (List.forall_mem_singleton.2 price)

end MarketMaker
