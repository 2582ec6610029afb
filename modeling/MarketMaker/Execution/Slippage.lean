import MarketMaker.Double
import MarketMaker.Market.Order

/-!
# Slippage

How much worse than the matched price an order trades, as a fraction of that price. The fraction
starts from a base rate in hundredths of a percent and grows with the order's size, up to ten
thousand units, and with volatility; a market order pays twice.
-/

namespace MarketMaker.Slippage

/-- The base rate unless another is set, in hundredths of a percent. -/
def standardRate : Float := 0.5

/-- The size of an order in thousands of units, at most ten. -/
def sizeFactor (quantity : UInt64) : Float :=
  Double.smaller (quantity.toFloat / 1000.0) 10.0

/-- The fraction for a limit order of some size at some volatility. -/
def limitFraction (rate : Float) (quantity : UInt64) (volatility : Float) : Float :=
  rate / 10000.0 * (1.0 + 0.1 * sizeFactor quantity) * (1.0 + 2.0 * volatility)

/-- The fraction of its price that an order loses. -/
def fraction (rate : Float) (o : Order) (volatility : Float) : Float :=
  let f := limitFraction rate o.quantity volatility
  if o.isMarket then f * 2.0 else f

/-- The price after slippage: higher for a purchase, lower for a sale. -/
def apply (side : Side) (price fraction : Float) : Float :=
  match side with
  | .buy => price * (1.0 + fraction)
  | .sell => price * (1.0 - fraction)

end MarketMaker.Slippage
