import MarketMaker.Market.Side

/-!
# Trades

A trade is an order that filled. Its cash flow is what it earns or costs: every figure on profit
and loss is a sum of cash flows.
-/

namespace MarketMaker

/-- One filled order. -/
structure Trade where
  orderId : UInt64
  symbol : String
  side : Side
  quantity : UInt64
  /-- The price after slippage. -/
  price : Float
  timestamp : Int64
  /-- The slippage as a fraction of the price before it. -/
  slippage : Float
deriving DecidableEq

namespace Trade

/-- Quantity times price. -/
def notional (t : Trade) : Float :=
  t.quantity.toFloat * t.price

/-- The notional, earned by a sale and paid by a purchase. -/
def cashFlow (t : Trade) : Float :=
  t.notional * t.side.cashSign

/-- What slippage cost, never negative. -/
def slippageCost (t : Trade) : Float :=
  (t.slippage * t.price * t.quantity.toFloat).abs

/-- How the position moves: the quantity as a signed word, which wraps from `2 ^ 63` on, with the
sign of the side. -/
def signedQuantity (t : Trade) : Int64 :=
  t.side.sign * t.quantity.toInt64

end Trade

/-- The cumulative profit and loss after a trade. -/
structure PnlPoint where
  timestamp : Int64
  cumulative : Float
deriving DecidableEq

end MarketMaker
