import MarketMaker.Json.Parser
import MarketMaker.Json.Printer
import MarketMaker.Json.Record
import MarketMaker.Market.Order
import MarketMaker.Market.Tick
import MarketMaker.Market.TopOfBook
import MarketMaker.Market.Trade

/-!
# Ticks, orders and trades as JSON

Each type has its member names once, in the order in which they are written; reading and writing both
go by that list. A tick leaves out the trade it does not carry. All else must be there.
-/

namespace MarketMaker

namespace Side

/-- The name of a side. -/
def toJson (s : Side) : Json := .text s.name

/-- Reads the name of a side. -/
def ofJson? (j : Json) : Option Side :=
  j.asChoice? [(buy.name, buy), (sell.name, sell)]

end Side

namespace OrderKind

/-- The name of a kind of order. -/
def toJson (k : OrderKind) : Json := .text k.name

/-- Reads the name of a kind of order. -/
def ofJson? (j : Json) : Option OrderKind :=
  j.asChoice? [(market.name, market), (limit.name, limit)]

end OrderKind

namespace Tick

/-- The names of the members that are always written, in their order. -/
def quoteNames : List String :=
  ["symbol", "bid", "ask", "bid_size", "ask_size", "timestamp"]

/-- The members of a tick. -/
def members (t : Tick) : List (String × Json) :=
  quoteNames.zip
    [.text t.symbol, .ofFloat t.bid, .ofFloat t.ask, .ofWord t.bidSize, .ofWord t.askSize,
      .ofSigned t.timestamp] ++
    (t.tradePrice.map fun p => ("trade_price", Json.ofFloat p)).toList ++
    (t.tradeSize.map fun s => ("trade_size", Json.ofWord s)).toList

/-- A tick as an object. -/
def toJson (t : Tick) : Json := .record t.members

/-- Reads a tick. -/
def ofJson? (j : Json) : Option Tick := do
  match ← j.slots? (quoteNames ++ ["trade_price", "trade_size"]) with
  | [symbol, bid, ask, bidSize, askSize, timestamp, tradePrice, tradeSize] =>
    return {
      symbol := ← Json.required Json.asText? symbol
      bid := ← Json.required Json.asFloat? bid
      ask := ← Json.required Json.asFloat? ask
      bidSize := ← Json.required Json.asWord? bidSize
      askSize := ← Json.required Json.asWord? askSize
      timestamp := ← Json.required Json.asSigned? timestamp
      tradePrice := ← Json.optional Json.asFloat? tradePrice
      tradeSize := ← Json.optional Json.asWord? tradeSize }
  | _ => none

end Tick

namespace Order

/-- The names of the members, in their order. -/
def names : List String :=
  ["id", "symbol", "side", "kind", "quantity", "price", "timestamp"]

/-- The members of an order. -/
def members (o : Order) : List (String × Json) :=
  names.zip
    [.ofWord o.id, .text o.symbol, o.side.toJson, o.kind.toJson, .ofWord o.quantity,
      .ofFloat o.price, .ofSigned o.timestamp]

/-- An order as an object. -/
def toJson (o : Order) : Json := .record o.members

/-- Reads an order. -/
def ofJson? (j : Json) : Option Order := do
  match ← j.slots? names with
  | [id, symbol, side, kind, quantity, price, timestamp] =>
    return {
      id := ← Json.required Json.asWord? id
      symbol := ← Json.required Json.asText? symbol
      side := ← Json.required Side.ofJson? side
      kind := ← Json.required OrderKind.ofJson? kind
      quantity := ← Json.required Json.asWord? quantity
      price := ← Json.required Json.asFloat? price
      timestamp := ← Json.required Json.asSigned? timestamp }
  | _ => none

end Order

namespace Trade

/-- The names of the members, in their order. -/
def names : List String :=
  ["order_id", "symbol", "side", "quantity", "price", "timestamp", "slippage"]

/-- The members of a trade. -/
def members (t : Trade) : List (String × Json) :=
  names.zip
    [.ofWord t.orderId, .text t.symbol, t.side.toJson, .ofWord t.quantity, .ofFloat t.price,
      .ofSigned t.timestamp, .ofFloat t.slippage]

/-- A trade as an object. -/
def toJson (t : Trade) : Json := .record t.members

/-- Reads a trade. -/
def ofJson? (j : Json) : Option Trade := do
  match ← j.slots? names with
  | [orderId, symbol, side, quantity, price, timestamp, slippage] =>
    return {
      orderId := ← Json.required Json.asWord? orderId
      symbol := ← Json.required Json.asText? symbol
      side := ← Json.required Side.ofJson? side
      quantity := ← Json.required Json.asWord? quantity
      price := ← Json.required Json.asFloat? price
      timestamp := ← Json.required Json.asSigned? timestamp
      slippage := ← Json.required Json.asFloat? slippage }
  | _ => none

end Trade

namespace PnlPoint

/-- The names of the members, in their order. -/
def names : List String := ["timestamp", "cumulative_pnl"]

/-- A point as an object. -/
def toJson (p : PnlPoint) : Json :=
  .record (names.zip [.ofSigned p.timestamp, .ofFloat p.cumulative])

/-- Reads a point. -/
def ofJson? (j : Json) : Option PnlPoint := do
  match ← j.slots? names with
  | [timestamp, cumulative] =>
    return {
      timestamp := ← Json.required Json.asSigned? timestamp
      cumulative := ← Json.required Json.asFloat? cumulative }
  | _ => none

end PnlPoint

/-- A level as an object. -/
def Level.toJson (l : Level) : Json :=
  .record [("price", .ofFloat l.price), ("size", .ofWord l.size)]

end MarketMaker
