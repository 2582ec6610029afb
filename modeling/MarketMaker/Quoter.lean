import MarketMaker.Double
import MarketMaker.Market.Order
import MarketMaker.Market.Tick
import MarketMaker.Market.Trade
import MarketMaker.Settings.Basic

/-!
# Quoting

A quoter makes the market in one symbol. On each tick that has a market it quotes one lot on each
side, a little inside the touch. Both quotes are shifted by the inventory skew, which leans towards
the target position: the more is held, the lower both prices. The position bounds quoting only: at
the bound a side is not quoted, but a fill may carry the position past it.
-/

namespace MarketMaker

/-- The maker of the market in one symbol. -/
structure Quoter where
  settings : QuoterSettings
  lotSize : UInt64
  priceImprovement : Float
  position : Int64
  /-- How many orders were made, which is also the id of the latest. -/
  made : UInt64
deriving DecidableEq

namespace Quoter

/-- The part of the spread by which a full skew shifts quotes. -/
def skewShare : Float := 0.1

/-- A quoter that holds nothing and has made no order. -/
def new (settings : QuoterSettings) (lotSize : UInt64) (priceImprovement : Float) : Quoter :=
  ⟨settings, lotSize, priceImprovement, 0, 0⟩

/-- The symbol that is quoted. -/
def symbol (q : Quoter) : String := q.settings.symbol

/-- How far the position is from its target, in units of the largest position; zero where no
position is allowed for. -/
def skew (q : Quoter) : Float :=
  if q.settings.isSkewed then
    Double.ofSigned (q.position - q.settings.inventoryTarget) /
      Double.ofSigned q.settings.maxPosition
  else 0.0

/-- By how much the skew lowers both quotes. -/
def skewShift (q : Quoter) (t : Tick) : Float :=
  q.skew * (q.settings.spread / 10000.0 * t.mid) * skewShare

/-- The price to buy at. -/
def bidPrice (q : Quoter) (t : Tick) : Float :=
  t.bid + q.priceImprovement - q.skewShift t

/-- The price to sell at. -/
def askPrice (q : Quoter) (t : Tick) : Float :=
  t.ask - q.priceImprovement - q.skewShift t

/-- Whether the tick is answered with an order to buy. -/
def quotesBid (q : Quoter) (t : Tick) : Bool :=
  q.position < q.settings.maxPosition && q.bidPrice t < q.askPrice t && q.bidPrice t > 0.0

/-- Whether the tick is answered with an order to sell. -/
def quotesAsk (q : Quoter) (t : Tick) : Bool :=
  q.position > -q.settings.maxPosition && q.askPrice t > q.bidPrice t

/-- Counts one order more. -/
def count (q : Quoter) : Quoter :=
  { q with made := q.made + 1 }

/-- The limit order for one lot that carries the latest id. -/
def order (q : Quoter) (side : Side) (price : Float) (now : Int64) : Order where
  id := q.made
  symbol := q.symbol
  side := side
  kind := .limit
  quantity := q.lotSize
  price := price
  timestamp := now

/-- Makes an order if it is wanted. -/
def make (q : Quoter) (wanted : Bool) (side : Side) (price : Float) (now : Int64) :
    List Order × Quoter :=
  if wanted then ([q.count.order side price now], q.count) else ([], q)

/-- Answers a tick: an order to buy, then an order to sell, each if it is quoted. -/
def quote (q : Quoter) (t : Tick) (now : Int64) : List Order × Quoter :=
  if t.hasMarket then
    let (bids, q₁) := q.make (q.quotesBid t) .buy (q.bidPrice t) now
    let (asks, q₂) := q₁.make (q.quotesAsk t) .sell (q.askPrice t) now
    (bids ++ asks, q₂)
  else ([], q)

/-- Takes a trade into the position. -/
def onTrade (q : Quoter) (t : Trade) : Quoter :=
  { q with position := q.position + t.signedQuantity }

/-- Holds nothing again, and counts orders from one again. -/
def reset (q : Quoter) : Quoter :=
  new q.settings q.lotSize q.priceImprovement

end Quoter

end MarketMaker
