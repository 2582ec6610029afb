import MarketMaker.Replay.State

/-!
# The steps of a replay

An order is checked, counted, matched and booked (`submit`). A tick is accepted (`accept`), then its
symbol's desk answers it (`respond`): it takes the tick into its book, quotes, and submits each quote.
An order that is refused leaves a trace only in the count of refused orders.
-/

namespace MarketMaker.Replay

/-! ## Orders -/

/-- The fault of an order that no state of the replay could accept. -/
def orderFault? (o : Order) : Option OrderFault :=
  if o.quantity = 0 then some (.zeroQuantity o.id)
  else if !o.isMarket && !(o.price.isFinite && o.price > 0.0) then some (.limitPrice o.id o.price)
  else none

/-- Counts a refused order. -/
def reject (r : Replay) : Replay :=
  { r with ordersRejected := r.ordersRejected + 1 }

/-- Counts an order that is tried. -/
def count (r : Replay) (o : Order) (price : Float) : Replay :=
  { r with
    ordersProcessed := r.ordersProcessed + 1
    orders := r.orders.record o price }

/-- Books a trade with its desk, the ledger and the list of trades. -/
def book (r : Replay) (d : Desk) (t : Trade) : Replay :=
  { r with
    desks := r.desks.insert t.symbol (d.onTrade t)
    ledger := r.ledger.book t
    trades := r.trades.push t }

/-- Tries an order at some time: its trade if it fills. -/
def submit (r : Replay) (o : Order) (now : Int64) : Except OrderFault (Option Trade) × Replay :=
  match orderFault? o, r.desk? o.symbol with
  | some fault, _ => (.error fault, r.reject)
  | none, none => (.error (.unquoted o.id o.symbol), r.reject)
  | none, some d =>
    let counted := r.count o (d.valuePrice o)
    match d.trade? r.settings o now with
    | none => (.ok none, counted)
    | some t => (.ok (some t), counted.book d t)

/-- Tries orders one after the other. -/
def submitAll (r : Replay) (orders : List Order) (now : Int64) : Replay :=
  orders.foldl (fun r o => (r.submit o now).2) r

/-! ## Ticks -/

/-- Admits a tick whose prices are finite. -/
def accept (r : Replay) (t : Tick) : Except TickFault Replay :=
  if t.isFinite then .ok { r with ticksProcessed := r.ticksProcessed + 1 }
  else .error (.nonFinite t.symbol t.bid t.ask)

/-- Whether a symbol has a desk. -/
def quotes (r : Replay) (symbol : String) : Bool :=
  r.desks.contains symbol

/-- Puts a desk in its symbol's place. -/
def setDesk (r : Replay) (symbol : String) (d : Desk) : Replay :=
  { r with desks := r.desks.insert symbol d }

/-- Answers a tick with quotes, and tries them. -/
def respond (r : Replay) (t : Tick) : Replay :=
  match r.desk? t.symbol with
  | none => r
  | some d =>
    let (orders, d) := (d.observe t).quote t
    (r.setDesk t.symbol d).submitAll orders t.timestamp

/-- Notes how long the answer to a tick took. -/
def timed (r : Replay) (took : Duration) : Replay :=
  { r with latency := r.latency.record took }

/-- Takes a tick, the answer to which took some time if its symbol has a desk. -/
def onTick (r : Replay) (t : Tick) (took : Duration) : Except TickFault Replay :=
  (r.accept t).map fun r => if r.quotes t.symbol then (r.respond t).timed took else r

end MarketMaker.Replay
