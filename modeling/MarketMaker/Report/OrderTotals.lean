import MarketMaker.Json.Printer
import MarketMaker.Market.Order

/-!
# Order totals

Totals over every order that was tried, whether or not it filled.
-/

namespace MarketMaker

/-- Totals over orders. -/
structure OrderTotals where
  orders : UInt64
  volume : UInt64
  value : Float
  meanSize : Float
  meanValue : Float
deriving DecidableEq

namespace OrderTotals

/-- No orders. -/
def empty : OrderTotals := ⟨0, 0, 0.0, 0.0, 0.0⟩

/-- One order more, valued at a price. -/
def record (s : OrderTotals) (o : Order) (price : Float) : OrderTotals :=
  let orders := s.orders + 1
  let volume := s.volume + o.quantity
  let value := s.value + price * o.quantity.toFloat
  let n := (max orders 1).toFloat
  ⟨orders, volume, value, volume.toFloat / n, value / n⟩

/-- The totals as an object. -/
def toJson (s : OrderTotals) : Json :=
  .record [("total_orders", .ofWord s.orders), ("total_volume", .ofWord s.volume),
    ("total_value", .ofFloat s.value), ("avg_order_size", .ofFloat s.meanSize),
    ("avg_order_value", .ofFloat s.meanValue)]

end OrderTotals

end MarketMaker
