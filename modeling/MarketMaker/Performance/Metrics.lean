import MarketMaker.Market.Trade
import MarketMaker.Performance.Latency

/-!
# Performance

What the trades of a run come to. The profit of a single trade is its cash flow, so wins are sales and
losses purchases: the figures tell in which direction cash moved, not which round trips paid. Sums run
over the trades from first to last.
-/

namespace MarketMaker

/-- The profit of one trade. -/
def Trade.pnl (t : Trade) : Float := t.cashFlow

namespace Performance

/-- The sum from the first to the last. -/
def sum (xs : List Float) : Float :=
  xs.foldl (· + ·) 0.0

/-- A profit that is a win. -/
def isWin (pnl : Float) : Bool := pnl > 0.0

/-- A profit that is a loss. -/
def isLoss (pnl : Float) : Bool := pnl < 0.0

/-- The longest block of neighbours that pass a test, where `current` of them end just before the
list and `best` is the longest block before it. -/
def longestFrom (test : Float → Bool) (current best : Nat) : List Float → Nat
  | [] => best
  | x :: xs =>
    if test x then longestFrom test (current + 1) (max best (current + 1)) xs
    else longestFrom test 0 best xs

/-- The length of the longest block of neighbours that pass a test. -/
def longest (test : Float → Bool) (xs : List Float) : Nat :=
  longestFrom test 0 0 xs

/-- The largest win, zero if there is none. -/
def largestWin (pnls : List Float) : Float :=
  (pnls.filter isWin).foldl Double.larger 0.0

/-- The largest loss, zero if there is none. -/
def largestLoss (pnls : List Float) : Float :=
  (pnls.filter isLoss).foldl Double.smaller 0.0

/-- The worst decline of a profit below the highest one before it, going on from a `peak` and a
`worst` decline so far. -/
def drawdownFrom (peak worst : Float) : List Float → Float
  | [] => worst
  | x :: xs =>
    let peak := Double.larger peak x
    drawdownFrom peak (Double.larger worst (peak - x)) xs

/-- The worst decline of the cumulative profit, which starts flat. -/
def maxDrawdown (history : List PnlPoint) : Float :=
  drawdownFrom 0.0 0.0 (history.map PnlPoint.cumulative)

/-- The mean profit in units of its deviation, zero with fewer than two trades or without
deviation. -/
def sharpe (pnls : List Float) : Float :=
  if pnls.length < 2 then 0.0
  else
    let deviation := Statistics.deviation pnls
    if deviation > 0.0 then Statistics.mean pnls / deviation else 0.0

end Performance

/-- What a run did beside its trades. -/
structure Activity where
  orders : UInt64
  elapsed : Duration
  latencyMillis : Float
  unrealized : Float
deriving DecidableEq

/-- A run that did nothing. -/
def Activity.none : Activity := ⟨0, .zero, 0.0, 0.0⟩

/-- What the trades of a run come to. -/
structure Metrics where
  trades : Nat
  wins : Nat
  losses : Nat
  /-- Wins over trades. -/
  hitRate : Float
  totalPnl : Float
  realizedPnl : Float
  /-- What is held, at the latest mid prices. -/
  unrealizedPnl : Float
  meanPnl : Float
  maxDrawdown : Float
  sharpe : Float
  totalSlippage : Float
  meanSlippage : Float
  volume : UInt64
  largestWin : Float
  largestLoss : Float
  longestWins : Nat
  longestLosses : Nat
  /-- Orders in a second. -/
  throughput : Float
  latencyMillis : Float
deriving DecidableEq

namespace Metrics

/-- The metrics of a run without trades. -/
def zero : Metrics :=
  ⟨0, 0, 0, 0.0, 0.0, 0.0, 0.0, 0.0, 0.0, 0.0, 0.0, 0.0, 0, 0.0, 0.0, 0, 0, 0.0, 0.0⟩

/-- The metrics of trades, the history of profits, and what else a run did. -/
def of (trades : List Trade) (history : List PnlPoint) (activity : Activity) : Metrics :=
  if trades.isEmpty then zero
  else
    let pnls := trades.map Trade.pnl
    let n := Double.ofCount trades.length
    let total := Performance.sum pnls
    let slippage := Performance.sum (trades.map Trade.slippageCost)
    { trades := trades.length
      wins := pnls.countP Performance.isWin
      losses := pnls.countP Performance.isLoss
      hitRate := Double.ofCount (pnls.countP Performance.isWin) / n
      totalPnl := total
      realizedPnl := total
      unrealizedPnl := activity.unrealized
      meanPnl := total / n
      maxDrawdown := Performance.maxDrawdown history
      sharpe := Performance.sharpe pnls
      totalSlippage := slippage
      meanSlippage := slippage / n
      volume := trades.foldl (fun v t => v + t.quantity) 0
      largestWin := Performance.largestWin pnls
      largestLoss := Performance.largestLoss pnls
      longestWins := Performance.longest Performance.isWin pnls
      longestLosses := Performance.longest Performance.isLoss pnls
      throughput := Latency.perSecond activity.orders activity.elapsed
      latencyMillis := activity.latencyMillis }

/-- The members of the metrics, in their order. -/
def members (m : Metrics) : List (String × Json) :=
  [("total_trades", .ofNat m.trades), ("winning_trades", .ofNat m.wins),
    ("losing_trades", .ofNat m.losses), ("hit_rate", .ofFloat m.hitRate),
    ("total_pnl", .ofFloat m.totalPnl), ("realized_pnl", .ofFloat m.realizedPnl),
    ("unrealized_pnl", .ofFloat m.unrealizedPnl), ("avg_trade_pnl", .ofFloat m.meanPnl),
    ("max_drawdown", .ofFloat m.maxDrawdown), ("sharpe_ratio", .ofFloat m.sharpe),
    ("total_slippage", .ofFloat m.totalSlippage), ("avg_slippage", .ofFloat m.meanSlippage),
    ("volume_traded", .ofWord m.volume), ("largest_win", .ofFloat m.largestWin),
    ("largest_loss", .ofFloat m.largestLoss), ("max_consecutive_wins", .ofNat m.longestWins),
    ("max_consecutive_losses", .ofNat m.longestLosses),
    ("throughput_ops_sec", .ofFloat m.throughput), ("avg_latency_ms", .ofFloat m.latencyMillis)]

/-- The metrics as an object. -/
def toJson (m : Metrics) : Json := .record m.members

end Metrics

end MarketMaker
