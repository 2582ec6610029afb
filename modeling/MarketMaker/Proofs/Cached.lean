import MarketMaker.Cache.Fields
import MarketMaker.Proofs.Decimal.RoundTrip

/-!
# Keys and fields

Whatever a symbol is made of, its ticks have a key of their own, which is no other symbol's key and no
trade's (`Cache.tickKey_injective`, `Cache.tickKey_ne_tradeKey`). The fields of a tick read back as the
tick without the trade it carries (`Cache.tickOfFields_tickFields`).
-/

namespace MarketMaker.Cache

/-! ## Keys -/

theorem tickKey_injective : Function.Injective tickKey := by
  intro a b same
  have chars := congrArg String.toList same
  rw [tickKey, tickKey, String.toList_append, String.toList_append] at chars
  exact String.toList_inj.1 (List.append_cancel_left chars)

theorem tradeKey_injective : Function.Injective tradeKey := by
  intro m n same
  have chars := congrArg String.toList same
  simp only [tradeKey, String.toList_append, String.toList_ofList] at chars
  have digits := congrArg Numeral.natural (List.append_cancel_left chars)
  rwa [Numeral.natural_digitsOf, Numeral.natural_digitsOf] at digits

/-- The two kinds of keys differ in their first character. -/
theorem tickKey_ne_tradeKey (symbol : String) (n : ℕ) : tickKey symbol ≠ tradeKey n := by
  intro same
  have chars := congrArg (fun key => key.toList.head?) same
  simp [tickKey, tradeKey] at chars

/-! ## Fields -/

theorem field_of_find? {α : Type} {fields : Fields} {read : String → Option α} {name text : String}
    {value : α} (there : fields.find? name = some text) (reads : read text = some value) :
    field fields read name = .ok value := by
  rw [field, there]
  simp only [reads]

theorem find?_tickFields (t : Tick) :
    (tickFields t).find? "bid" = some (Plain.ofFloat t.bid) ∧
    (tickFields t).find? "ask" = some (Plain.ofFloat t.ask) ∧
    (tickFields t).find? "bid_size" = some (Plain.ofWord t.bidSize) ∧
    (tickFields t).find? "ask_size" = some (Plain.ofWord t.askSize) ∧
    (tickFields t).find? "timestamp" = some (Plain.ofSigned t.timestamp) := by
  simp [tickFields, Table.ofList, Table.find?_insert]

/-- A tick whose prices are numbers, if infinite ones, reads back from its fields, but for the trade it
carries. -/
theorem tickOfFields_of_number {t : Tick} (numberBid : t.bid.isNaN = false)
    (numberAsk : t.ask.isNaN = false) : tickOfFields t.symbol (tickFields t) = .ok t.quoteOnly := by
  obtain ⟨bid, ask, bidSize, askSize, timestamp⟩ := find?_tickFields t
  unfold tickOfFields
  rw [field_of_find? bid (Plain.float?_ofFloat_of_number numberBid),
    field_of_find? ask (Plain.float?_ofFloat_of_number numberAsk),
    field_of_find? bidSize (Plain.word64?_ofWord _),
    field_of_find? askSize (Plain.word64?_ofWord _),
    field_of_find? timestamp (Plain.signed64?_ofSigned _)]
  rfl

theorem tickOfFields_tickFields {t : Tick} (finite : t.isFinite = true) :
    tickOfFields t.symbol (tickFields t) = .ok t.quoteOnly := by
  obtain ⟨finiteBid, finiteAsk⟩ := Bool.and_eq_true_iff.1 finite
  exact tickOfFields_of_number (Double.isNaN_of_isFinite finiteBid)
    (Double.isNaN_of_isFinite finiteAsk)

end MarketMaker.Cache
