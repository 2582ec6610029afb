import MarketMaker.Error
import MarketMaker.Market.Tick
import MarketMaker.Market.Trade
import MarketMaker.Table

/-!
# Cached fields

The cache holds texts: a tick or a trade becomes a table of its fields, each a plain text, under a key
of its own. The latest tick of a symbol has the key `md:` and the symbol, the `n`-th trade the key
`trade:` and `n`. A tick can be read back from its fields; what a tick carries of other trades is not
cached.
-/

namespace MarketMaker.Cache

/-- The fields under one key. -/
abbrev Fields := Table String

/-- The key of a symbol's latest tick. -/
def tickKey (symbol : String) : String :=
  "md:" ++ symbol

/-- The key of the `n`-th trade. -/
def tradeKey (n : Nat) : String :=
  "trade:" ++ String.ofList (Numeral.digitsOf n)

/-- The fields of a tick. -/
def tickFields (t : Tick) : Fields :=
  .ofList [("bid", Plain.ofFloat t.bid), ("ask", Plain.ofFloat t.ask),
    ("bid_size", Plain.ofWord t.bidSize), ("ask_size", Plain.ofWord t.askSize),
    ("timestamp", Plain.ofSigned t.timestamp)]

/-- The fields of a trade. -/
def tradeFields (t : Trade) : Fields :=
  .ofList [("order_id", Plain.ofWord t.orderId), ("symbol", t.symbol), ("side", t.side.name),
    ("quantity", Plain.ofWord t.quantity), ("price", Plain.ofFloat t.price),
    ("timestamp", Plain.ofSigned t.timestamp), ("slippage", Plain.ofFloat t.slippage)]

/-- Reads one field. -/
def field {α : Type} (fields : Fields) (read : String → Option α) (name : String) :
    Except CacheFault α :=
  match fields.find? name with
  | none => .error (.missing name)
  | some text =>
    match read text with
    | none => .error (.malformed name)
    | some value => .ok value

/-- Reads a symbol's tick back from its fields. The first field that is missing or malformed, in the
order in which a tick has them, is the fault. -/
def tickOfFields (symbol : String) (fields : Fields) : Except CacheFault Tick := do
  let bid ← field fields Plain.float? "bid"
  let ask ← field fields Plain.float? "ask"
  let bidSize ← field fields Plain.word64? "bid_size"
  let askSize ← field fields Plain.word64? "ask_size"
  let timestamp ← field fields Plain.signed64? "timestamp"
  return { symbol, bid, ask, bidSize, askSize, timestamp }

end MarketMaker.Cache
