import MarketMaker.Market.Side

/-!
# Orders
-/

namespace MarketMaker

/-- Whether an order has a limit. -/
inductive OrderKind where
  /-- Trades at whatever the touch is. -/
  | market
  /-- Trades at its price or better. -/
  | limit
deriving DecidableEq, Repr

/-- The name of a kind of order. -/
def OrderKind.name : OrderKind → String
  | market => "MARKET"
  | limit => "LIMIT"

/-- An order to trade one symbol. -/
structure Order where
  id : UInt64
  symbol : String
  side : Side
  kind : OrderKind
  quantity : UInt64
  /-- The limit; a market order does not look at it. -/
  price : Float
  timestamp : Int64
deriving DecidableEq

namespace Order

/-- Whether an order is a market order. -/
def isMarket (o : Order) : Bool :=
  o.kind = .market

end Order

end MarketMaker
