import MarketMaker.Error
import MarketMaker.Ledger
import MarketMaker.Performance.Metrics
import MarketMaker.Replay.Desk
import MarketMaker.Report.Basic

/-!
# Replays

A replay runs ticks past the desks: every tick is answered with quotes, and every quote is matched
with the same tick's book at once, so no order rests from tick to tick. This module holds the state of
a replay and the figures read off it; `MarketMaker.Replay.Step` holds what changes it.
-/

namespace MarketMaker

/-- The state of a replay. -/
structure Replay where
  settings : EngineSettings
  desks : Table Desk
  ledger : Ledger
  trades : Array Trade
  latency : Latency
  orders : OrderTotals
  /-- Ticks with finite prices. -/
  ticksProcessed : UInt64
  /-- Orders that were tried. -/
  ordersProcessed : UInt64
  ordersRejected : UInt64
  elapsed : Duration

namespace Replay

/-- A replay without desks, before anything happened. -/
def empty (settings : EngineSettings) : Replay where
  settings := settings
  desks := .empty
  ledger := .empty
  trades := #[]
  latency := .empty
  orders := .empty
  ticksProcessed := 0
  ordersProcessed := 0
  ordersRejected := 0
  elapsed := .zero

/-- Adds a desk for a quoter. No symbol is quoted twice. -/
def addQuoter (r : Replay) (q : Quoter) : Except Halt Replay :=
  if r.desks.contains q.symbol then .error (.refused (.alreadyQuoted q.symbol))
  else
    match Desk.make? r.settings.volatility q with
    | none => .error .noRoom
    | some desk => .ok { r with
      desks := r.desks.insert q.symbol desk
      ledger := r.ledger.register q.symbol }

/-- A replay with a desk for each of some quoters. -/
def new (settings : EngineSettings) (quoters : List QuoterSettings) : Except Halt Replay :=
  quoters.foldlM
    (fun r q => r.addQuoter (.new q settings.lotSize settings.priceImprovement))
    (empty settings)

/-- Forgets all that happened and keeps the desks. -/
def reset (r : Replay) : Replay :=
  { empty r.settings with
    desks := r.desks.map fun _ d => d.reset r.settings.volatility
    ledger := r.ledger.reset }

/-- The desk of a symbol. -/
def desk? (r : Replay) (symbol : String) : Option Desk :=
  r.desks.find? symbol

/-- What is held, at each symbol's mid price where it has a market. The sum starts from minus zero,
to which adding any number gives that number. -/
def unrealized (r : Replay) : Float :=
  let marked := r.desks.entries.filter fun e => e.2.book.hasMarket
  (marked.map fun e => (r.ledger.holding e.1).value e.2.book.mid).foldl (· + ·) (-0.0)

/-- What the replay did beside its trades. -/
def activity (r : Replay) : Activity where
  orders := r.ordersProcessed
  elapsed := r.elapsed
  latencyMillis := r.latency.meanMillis
  unrealized := r.unrealized

/-- What the trades come to. -/
def metrics (r : Replay) : Metrics :=
  .of r.trades.toList r.ledger.history.toList r.activity

/-- Everything the replay came to. -/
def report (r : Replay) (generated : UtcTime) : Report where
  orders := r.orders
  performance := r.latency.summary r.ordersProcessed r.elapsed
  metrics := r.metrics
  positions := r.ledger.holdings
  generated := generated

end Replay

end MarketMaker
