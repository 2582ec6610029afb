/-!
# Settings

Everything a run can be told: how orders execute, where volatility comes from, how long cached entries
live, and how each symbol is quoted. The structure defaults are the documented defaults.
-/

namespace MarketMaker

/-- Where the volatility behind slippage comes from. -/
inductive VolatilitySource where
  /-- The same figure always. -/
  | fixed (value : Float)
  /-- The deviation of the latest returns, and a figure to use until there are enough of them. -/
  | rolling (window : UInt64) (fallback : Float)
deriving DecidableEq

/-- How orders are made and executed. -/
structure EngineSettings where
  /-- Slippage before size and volatility, in hundredths of a percent. -/
  baseSlippage : Float := 0.5
  /-- The quantity of every quote. -/
  lotSize : UInt64 := 100
  /-- How far inside the touch quotes stand. -/
  priceImprovement : Float := 0.01
  /-- How far short of the touch, as a fraction of it, a limit order still fills. -/
  fillTolerance : Float := 0.001
  volatility : VolatilitySource := .fixed 0.01
  /-- The number of ticks between notices of progress. -/
  progressInterval : UInt64 := 10000
deriving DecidableEq

/-- How long cached entries live, in seconds. -/
structure CacheSettings where
  tickExpiry : UInt64 := 60
  tradeExpiry : UInt64 := 3600
deriving DecidableEq

/-- How one symbol is quoted. -/
structure QuoterSettings where
  symbol : String
  /-- The target spread in hundredths of a percent of the mid price. -/
  spread : Float := 2.0
  /-- The position up to which quotes are made, in either direction. -/
  maxPosition : Int64 := 1000
  /-- The position that quotes lean towards. -/
  inventoryTarget : Int64 := 0
deriving DecidableEq

/-- Quotes lean towards the target only if there is room for a position. -/
def QuoterSettings.isSkewed (s : QuoterSettings) : Bool :=
  0 < s.maxPosition

/-- The settings of a run. -/
structure Settings where
  engine : EngineSettings := {}
  cache : CacheSettings := {}
  quoters : List QuoterSettings := []
deriving DecidableEq

end MarketMaker
