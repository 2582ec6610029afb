import MarketMaker.Market.Tick
import MarketMaker.Settings.Basic
import MarketMaker.Table

/-!
# Quoting whatever trades

Settings that name no symbol to quote are completed from the ticks: every symbol that has one is
quoted in the standard way, in the order of the symbols.
-/

namespace MarketMaker.Settings

/-- The symbols of ticks, each once, in increasing order. -/
def symbolsOf (ticks : List Tick) : List String :=
  (ticks.foldl (fun (t : Table Unit) tick => t.insert tick.symbol ()) .empty).keys

/-- Settings that quote every symbol of some ticks, unless they say what to quote. -/
def covering (s : Settings) (ticks : List Tick) : Settings :=
  if s.quoters.isEmpty then
    { s with quoters := (symbolsOf ticks).map fun symbol => { symbol } }
  else s

end MarketMaker.Settings
