import MarketMaker.Error
import MarketMaker.Settings.Basic
import MarketMaker.Text.Blank

/-!
# Which settings make a meaningful run

Each part of the settings has a proposition that says what is meaningful (`Meaningful`) and a check
that finds the first fault in a fixed order (`check`): the engine's settings, the cache's, then the
quoters one by one, each before it is compared with those in front of it.
-/

namespace MarketMaker

/-- A number that is finite and not negative. -/
def isNonNegative (x : Float) : Bool :=
  x.isFinite && !(x < 0.0)

/-- Passes if a condition holds. -/
def ensure (condition : Bool) (fault : SettingsFault) : Except SettingsFault Unit :=
  if condition then .ok () else .error fault

namespace VolatilitySource

/-- A fixed figure or a fallback is not negative, and a window holds at least two returns. -/
def Meaningful : VolatilitySource → Prop
  | fixed value => isNonNegative value
  | rolling window fallback => 2 ≤ window ∧ isNonNegative fallback

/-- The first fault of a source. -/
def check : VolatilitySource → Except SettingsFault Unit
  | fixed value => ensure (isNonNegative value) (.fixedVolatility value)
  | rolling window fallback => do
    ensure (2 ≤ window) (.window window)
    ensure (isNonNegative fallback) (.fallbackVolatility fallback)

end VolatilitySource

namespace EngineSettings

/-- What the engine can work with. -/
structure Meaningful (s : EngineSettings) : Prop where
  baseSlippage : isNonNegative s.baseSlippage
  lotSize : 0 < s.lotSize
  priceImprovement : s.priceImprovement.isFinite ∧ s.priceImprovement > 0.0
  fillTolerance : 0.0 ≤ s.fillTolerance ∧ s.fillTolerance < 1.0
  progressInterval : 0 < s.progressInterval
  volatility : s.volatility.Meaningful

/-- The first fault of the engine's settings. -/
def check (s : EngineSettings) : Except SettingsFault Unit := do
  ensure (isNonNegative s.baseSlippage) (.baseSlippage s.baseSlippage)
  ensure (0 < s.lotSize) .lotSize
  ensure (s.priceImprovement.isFinite && s.priceImprovement > 0.0)
    (.priceImprovement s.priceImprovement)
  ensure (0.0 ≤ s.fillTolerance && s.fillTolerance < 1.0) (.fillTolerance s.fillTolerance)
  ensure (0 < s.progressInterval) .progressInterval
  s.volatility.check

end EngineSettings

namespace CacheSettings

/-- An expiry of at least a second and at most a year. -/
def isExpiry (seconds : UInt64) : Bool :=
  0 < seconds && seconds ≤ longestExpiry

/-- Both expiries are in range. -/
structure Meaningful (s : CacheSettings) : Prop where
  tickExpiry : isExpiry s.tickExpiry
  tradeExpiry : isExpiry s.tradeExpiry

/-- The first fault of the cache's settings. -/
def check (s : CacheSettings) : Except SettingsFault Unit := do
  ensure (isExpiry s.tickExpiry) (.expiry "tick_ttl_secs" s.tickExpiry)
  ensure (isExpiry s.tradeExpiry) (.expiry "trade_ttl_secs" s.tradeExpiry)

end CacheSettings

namespace QuoterSettings

/-- A symbol that is not blank, and a spread that is not negative. -/
structure Meaningful (s : QuoterSettings) : Prop where
  symbol : Text.isAllBlank s.symbol = false
  spread : isNonNegative s.spread

/-- The first fault of a quoter's settings. -/
def check (s : QuoterSettings) : Except SettingsFault Unit := do
  ensure (!Text.isAllBlank s.symbol) .blankSymbol
  ensure (isNonNegative s.spread) (.spread s.symbol s.spread)

/-- The first fault of quoters that come behind those of the symbols `seen`. -/
def checkAll (seen : List String) : List QuoterSettings → Except SettingsFault Unit
  | [] => .ok ()
  | s :: rest => do
    s.check
    ensure (!seen.contains s.symbol) (.duplicateSymbol s.symbol)
    checkAll (s.symbol :: seen) rest

end QuoterSettings

namespace Settings

/-- Every part is meaningful, and no symbol is quoted twice. -/
structure Meaningful (s : Settings) : Prop where
  engine : s.engine.Meaningful
  cache : s.cache.Meaningful
  quoters : ∀ q ∈ s.quoters, q.Meaningful
  distinct : (s.quoters.map QuoterSettings.symbol).Nodup

/-- The first fault of the settings. -/
def check (s : Settings) : Except SettingsFault Unit := do
  s.engine.check
  s.cache.check
  QuoterSettings.checkAll [] s.quoters

end Settings

end MarketMaker
