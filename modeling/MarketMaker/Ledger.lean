import MarketMaker.Double
import MarketMaker.Market.Trade
import MarketMaker.Table

/-!
# The ledger

The ledger books trades: per symbol the position, the cash and the fills, and for all symbols together
the profit and loss after each trade. Profit and loss is cash flow: a purchase lowers it by its
notional and a sale raises it.
-/

namespace MarketMaker

/-- What the trades of one symbol add up to. -/
structure Holding where
  position : Int64
  /-- What sales earned less what purchases cost. -/
  cash : Float
  volume : UInt64
  buys : UInt64
  sells : UInt64
deriving DecidableEq

namespace Holding

/-- Nothing held, nothing traded. -/
def flat : Holding := ⟨0, 0.0, 0, 0, 0⟩

/-- The position valued at a price. -/
def value (h : Holding) (price : Float) : Float :=
  Double.ofSigned h.position * price

/-- Books a trade. -/
def book (h : Holding) (t : Trade) : Holding where
  position := h.position + t.signedQuantity
  cash := h.cash + t.cashFlow
  volume := h.volume + t.quantity
  buys := if t.side = .buy then h.buys + 1 else h.buys
  sells := if t.side = .sell then h.sells + 1 else h.sells

end Holding

/-- All trades booked, by symbol and in their order. -/
structure Ledger where
  holdings : Table Holding
  history : Array PnlPoint

namespace Ledger

/-- A ledger without symbols. -/
def empty : Ledger := ⟨.empty, #[]⟩

/-- What is held in a symbol, nothing if the ledger does not know it. -/
def holding (l : Ledger) (symbol : String) : Holding :=
  (l.holdings.find? symbol).getD .flat

/-- Makes a symbol known. -/
def register (l : Ledger) (symbol : String) : Ledger :=
  { l with holdings := l.holdings.insert symbol (l.holding symbol) }

/-- The profit and loss so far. -/
def pnl (l : Ledger) : Float :=
  l.history.back?.elim 0.0 PnlPoint.cumulative

/-- Books a trade, with the profit and loss after it. -/
def book (l : Ledger) (t : Trade) : Ledger where
  holdings := l.holdings.insert t.symbol ((l.holding t.symbol).book t)
  history := l.history.push ⟨t.timestamp, l.pnl + t.cashFlow⟩

/-- Forgets all trades and keeps the symbols. -/
def reset (l : Ledger) : Ledger where
  holdings := l.holdings.map fun _ _ => .flat
  history := #[]

end Ledger

end MarketMaker
