import MarketMaker.Ledger
import MarketMaker.Performance.Metrics
import MarketMaker.Report.OrderTotals
import MarketMaker.Report.UtcTime

/-!
# Reports

Everything that a run came to, as one JSON document.
-/

namespace MarketMaker

/-- A holding as an object. -/
def Holding.toJson (h : Holding) : Json :=
  .record [("position", .ofSigned h.position), ("cash", .ofFloat h.cash),
    ("volume_traded", .ofWord h.volume), ("buy_fills", .ofWord h.buys),
    ("sell_fills", .ofWord h.sells)]

/-- Everything that a run came to. -/
structure Report where
  orders : OrderTotals
  performance : LatencySummary
  metrics : Metrics
  positions : Table Holding
  generated : UtcTime

namespace Report

/-- The report as an object. -/
def toJson (r : Report) : Json :=
  .record [("orders", r.orders.toJson), ("performance", r.performance.toJson),
    ("metrics", r.metrics.toJson),
    ("positions", .record (r.positions.entries.map fun e => (e.1, e.2.toJson))),
    ("generated_at", .text r.generated.text)]

/-- The report as indented text. -/
def text (r : Report) : String :=
  r.toJson.indented

end Report

end MarketMaker
