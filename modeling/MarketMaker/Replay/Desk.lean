import MarketMaker.Execution.Fill
import MarketMaker.Execution.Slippage
import MarketMaker.Quoter
import MarketMaker.Volatility.Gauge

/-!
# Desks

A desk is all that is kept for one symbol: its book, its quoter and its volatility. Whatever happens
to one desk needs no other.
-/

namespace MarketMaker

/-- What is kept for one symbol. -/
structure Desk where
  book : TopOfBook
  quoter : Quoter
  volatility : VolatilityGauge

namespace Desk

/-- The desk of a quoter, before any tick. -/
def new (source : VolatilitySource) (quoter : Quoter) : Desk :=
  ⟨.empty quoter.symbol, quoter, .ofSource source⟩

/-- The desk of a quoter, before any tick, if there can be room for its volatility. -/
def make? (source : VolatilitySource) (quoter : Quoter) : Option Desk :=
  (VolatilityGauge.make? source).map fun volatility => ⟨.empty quoter.symbol, quoter, volatility⟩

/-- Takes a tick into the book, and its mid price into the volatility if there is a market. -/
def observe (d : Desk) (t : Tick) : Desk :=
  let book := d.book.update t
  { d with
    book
    volatility := if book.hasMarket then d.volatility.observe book.mid else d.volatility }

/-- The orders that answer a tick. -/
def quote (d : Desk) (t : Tick) : List Order × Desk :=
  let (orders, quoter) := d.quoter.quote t t.timestamp
  (orders, { d with quoter })

/-- The price at which an order counts: its limit, or for a market order the touch, zero if there is
none. -/
def valuePrice (d : Desk) (o : Order) : Float :=
  let touch := d.book.touch o.side
  if !o.isMarket then o.price
  else if touch > 0.0 && touch.isFinite then touch
  else 0.0

/-- The trade of an order that fills, with the slippage it loses. -/
def trade? (s : EngineSettings) (d : Desk) (o : Order) (now : Int64) : Option Trade :=
  (Fill.match? s.fillTolerance o d.book).map fun fill =>
    let slippage := Slippage.fraction s.baseSlippage o d.volatility.current
    { orderId := o.id
      symbol := o.symbol
      side := o.side
      quantity := o.quantity
      price := Slippage.apply o.side fill.price slippage
      timestamp := now
      slippage }

/-- Takes a trade into the quoter's position. -/
def onTrade (d : Desk) (t : Trade) : Desk :=
  { d with quoter := d.quoter.onTrade t }

/-- The desk as before its first tick. There is room for its volatility, since there was when the desk
was made. -/
def reset (source : VolatilitySource) (d : Desk) : Desk :=
  new source d.quoter.reset

end Desk

end MarketMaker
