import MarketMaker.Proofs.Cached

/-!
# Fields lose nothing

The flat texts of a tick read back as the tick, and the flat texts of a trade are no other trade's
(`Cache.fields_lossless`). Doubles are the same only if their bits are: the sign of a zero shows, and so
does the last digit of the longest double.
-/

namespace MarketMaker

namespace Side

theorem name_injective : Function.Injective name := by
  intro s s' same
  cases s <;> cases s' <;> first | rfl | exact absurd same (by decide)

end Side

namespace Plain

/-- No two words have the same text. -/
theorem ofWord_injective : Function.Injective ofWord := fun m n same =>
  Option.some.inj ((word64?_ofWord m).symm.trans (same ▸ word64?_ofWord n))

theorem ofSigned_injective : Function.Injective ofSigned := fun m n same =>
  Option.some.inj ((signed64?_ofSigned m).symm.trans (same ▸ signed64?_ofSigned n))

/-- No two doubles that are numbers have the same text. -/
theorem eq_of_ofFloat {x y : Float} (numberx : x.isNaN = false) (numbery : y.isNaN = false)
    (same : ofFloat x = ofFloat y) : x = y := by
  have readx := float?_ofFloat_of_number numberx
  rw [same, float?_ofFloat_of_number numbery] at readx
  exact (Option.some.inj readx).symm

end Plain

namespace Cache

theorem find?_tradeFields (t : Trade) :
    (tradeFields t).find? "order_id" = some (Plain.ofWord t.orderId) ∧
    (tradeFields t).find? "symbol" = some t.symbol ∧
    (tradeFields t).find? "side" = some t.side.name ∧
    (tradeFields t).find? "quantity" = some (Plain.ofWord t.quantity) ∧
    (tradeFields t).find? "price" = some (Plain.ofFloat t.price) ∧
    (tradeFields t).find? "timestamp" = some (Plain.ofSigned t.timestamp) ∧
    (tradeFields t).find? "slippage" = some (Plain.ofFloat t.slippage) := by
  simp [tradeFields, Table.ofList, Table.find?_insert]

/-- Trades with the same fields are the same. -/
theorem eq_of_tradeFields {a b : Trade} (pricea : a.price.isNaN = false)
    (slippagea : a.slippage.isNaN = false) (priceb : b.price.isNaN = false)
    (slippageb : b.slippage.isNaN = false) (same : tradeFields a = tradeFields b) : a = b := by
  obtain ⟨orderId, symbol, side, quantity, price, timestamp, slippage⟩ := find?_tradeFields a
  obtain ⟨orderId', symbol', side', quantity', price', timestamp', slippage'⟩ := find?_tradeFields b
  have one {name text text' : String} (here : (tradeFields a).find? name = some text)
      (there : (tradeFields b).find? name = some text') : text = text' :=
    Option.some.inj (here.symm.trans (same ▸ there))
  have orderId := Plain.ofWord_injective (one orderId orderId')
  have symbol := one symbol symbol'
  have side := Side.name_injective (one side side')
  have quantity := Plain.ofWord_injective (one quantity quantity')
  have price := Plain.eq_of_ofFloat pricea priceb (one price price')
  have timestamp := Plain.ofSigned_injective (one timestamp timestamp')
  have slippage := Plain.eq_of_ofFloat slippagea slippageb (one slippage slippage')
  obtain ⟨⟩ := a
  obtain ⟨⟩ := b
  simp_all

/-- **Fields lose nothing.** A tick whose prices are numbers, whatever numbers, its sizes any words and
its time any signed word, reads back from its fields to the bit, but for the trade it carries. Trades
whose prices and slippages are numbers have the same fields only if they are the same to the bit. -/
theorem fields_lossless :
    (∀ t : Tick, t.bid.isNaN = false → t.ask.isNaN = false →
      tickOfFields t.symbol (tickFields t) = .ok t.quoteOnly) ∧
    ∀ a b : Trade, a.price.isNaN = false → a.slippage.isNaN = false → b.price.isNaN = false →
      b.slippage.isNaN = false → (tradeFields a = tradeFields b ↔ a = b) := by
  constructor
  case left => exact fun t => tickOfFields_of_number
  case right =>
    intro a b pricea slippagea priceb slippageb
    constructor
    · exact eq_of_tradeFields pricea slippagea priceb slippageb
    · rintro rfl
      rfl

end Cache

namespace Sample

/-- A tick whose parts are at the ends of their ranges. -/
def widest : Tick where
  symbol := "A"
  bid := -5e-324
  ask := 1.0 / 0.0
  bidSize := 18446744073709551615
  askSize := 0
  timestamp := -9223372036854775808
  tradePrice := some (-0.0)
  tradeSize := some 1

/-- A trade at a price next to the largest one. -/
def dear : Trade := ⟨1, "A", .buy, 1, 1.7976931348623155e308, 0, 0.0⟩

/-- The trade at the largest price. -/
def dearest : Trade := { dear with price := 1.7976931348623157e308 }

end Sample

/-- A tick at the ends of all ranges reads back, and two trades that differ in the last bit of a long
price differ in their fields. -/
theorem Cache.fields_lossless_sample :
    Sample.widest.bid.isNaN = false ∧ Sample.widest.ask.isNaN = false ∧
    tickOfFields "A" (tickFields Sample.widest) = .ok Sample.widest.quoteOnly ∧
    Sample.dear.price.isNaN = false ∧ Sample.dear.slippage.isNaN = false ∧
    Sample.dearest.price.isNaN = false ∧ tradeFields Sample.dear ≠ tradeFields Sample.dearest := by
  have bid : Sample.widest.bid.isNaN = false := by decide +kernel
  have ask : Sample.widest.ask.isNaN = false := by decide +kernel
  have price : Sample.dear.price.isNaN = false := by decide +kernel
  have slippage : Sample.dear.slippage.isNaN = false := by decide +kernel
  have price' : Sample.dearest.price.isNaN = false := by decide +kernel
  refine ⟨bid, ask, fields_lossless.1 Sample.widest bid ask, price, slippage, price', fun same => ?_⟩
  have equal := (fields_lossless.2 _ _ price slippage price' slippage).1 same
  exact absurd (congrArg Trade.price equal) (by decide +kernel)

end MarketMaker
