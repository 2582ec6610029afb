import MarketMaker.Market.Tick

/-!
# The top of the book

The best bid and ask of one symbol as its latest tick quotes them. Nothing of an earlier tick remains.
Before the first tick the bid stands at zero and the ask at infinity, so neither can trade.
-/

namespace MarketMaker

/-- A price and the quantity quoted at it. -/
structure Level where
  price : Float
  size : UInt64
deriving DecidableEq

/-- What the latest tick quotes. -/
structure Quote where
  bid : Level
  ask : Level
  timestamp : Int64
deriving DecidableEq

/-- The best bid and ask of one symbol. -/
structure TopOfBook where
  symbol : String
  latest : Option Quote
deriving DecidableEq

namespace TopOfBook

/-- The book before the first tick. -/
def empty (symbol : String) : TopOfBook := ⟨symbol, none⟩

/-- The book after a tick. -/
def update (b : TopOfBook) (t : Tick) : TopOfBook :=
  { b with latest := some ⟨⟨t.bid, t.bidSize⟩, ⟨t.ask, t.askSize⟩, t.timestamp⟩ }

/-- The best bid. -/
def bid (b : TopOfBook) : Level :=
  b.latest.elim ⟨0.0, 0⟩ Quote.bid

/-- The best ask. -/
def ask (b : TopOfBook) : Level :=
  b.latest.elim ⟨1.0 / 0.0, 0⟩ Quote.ask

/-- The time of the latest tick, zero before the first. -/
def lastUpdate (b : TopOfBook) : Int64 :=
  b.latest.elim 0 Quote.timestamp

/-- Both sides are there: a positive bid, and a positive ask that is finite. -/
def hasMarket (b : TopOfBook) : Bool :=
  b.bid.price > 0.0 && b.ask.price > 0.0 && b.ask.price.isFinite

/-- The price halfway between bid and ask, zero without a market. -/
def mid (b : TopOfBook) : Float :=
  if b.hasMarket then (b.bid.price + b.ask.price) / 2.0 else 0.0

/-- The distance from bid to ask, zero without a market. -/
def spread (b : TopOfBook) : Float :=
  if b.hasMarket then b.ask.price - b.bid.price else 0.0

end TopOfBook

end MarketMaker
