import MarketMaker.Double
import MarketMaker.Settings.Basic
import MarketMaker.Volatility.ReturnWindow

/-!
# Volatility

The standard deviation of the logarithmic returns in a window, and the figure that slippage uses: a
fixed one, or that deviation once there are two returns.
-/

namespace MarketMaker

namespace ReturnWindow

/-- Takes a price. One that is at most zero breaks the chain. -/
def observe (w : ReturnWindow Float) (price : Float) : ReturnWindow Float :=
  w.addPrice (fun p => p ≤ 0.0) (fun earlier later => (later / earlier).log) price

/-- The standard deviation of the returns kept, if there are at least two. A variance that rounding
has made negative counts as zero. -/
def volatility? (w : ReturnWindow Float) : Option Float :=
  if w.kept.size < 2 then none
  else
    let v := w.variance (Double.ofCount w.kept.size)
    some (if v ≤ 0.0 then 0.0 else v.sqrt)

end ReturnWindow

/-- The volatility of one symbol. -/
inductive VolatilityGauge where
  | fixed (value : Float)
  | rolling (window : ReturnWindow Float) (fallback : Float)

namespace VolatilityGauge

/-- The gauge of a source, before any price. -/
def ofSource : VolatilitySource → VolatilityGauge
  | .fixed value => .fixed value
  | .rolling window fallback => .rolling (.empty window.toNat) fallback

/-- The gauge of a source, before any price, if there can be room for its window. -/
def make? : VolatilitySource → Option VolatilityGauge
  | .fixed value => some (.fixed value)
  | .rolling window fallback => (ReturnWindow.make? window).map (.rolling · fallback)

/-- Takes a mid price. -/
def observe (g : VolatilityGauge) (mid : Float) : VolatilityGauge :=
  match g with
  | fixed value => fixed value
  | rolling window fallback => rolling (window.observe mid) fallback

/-- The current figure. -/
def current : VolatilityGauge → Float
  | fixed value => value
  | rolling window fallback => window.volatility?.getD fallback

end VolatilityGauge

end MarketMaker
