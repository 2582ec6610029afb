/-!
# Ticks

A tick is one observation of a symbol's best bid and ask. It may carry the price and size of a trade
seen elsewhere, which nothing here trades on.
-/

namespace MarketMaker

/-- One observation of the best bid and ask. -/
structure Tick where
  symbol : String
  bid : Float
  ask : Float
  bidSize : UInt64
  askSize : UInt64
  /-- Nanoseconds since 1970. -/
  timestamp : Int64
  tradePrice : Option Float := none
  tradeSize : Option UInt64 := none
deriving DecidableEq

namespace Tick

/-- Both sides are quoted at positive prices. -/
def hasMarket (t : Tick) : Bool :=
  t.bid > 0.0 && t.ask > 0.0

/-- The price halfway between bid and ask. -/
def mid (t : Tick) : Float :=
  (t.bid + t.ask) / 2.0

/-- Neither price is infinite or no number. -/
def isFinite (t : Tick) : Bool :=
  t.bid.isFinite && t.ask.isFinite

/-- The tick without the trade it carries. -/
def quoteOnly (t : Tick) : Tick :=
  { t with tradePrice := none, tradeSize := none }

end Tick

end MarketMaker
