/-!
# Sides

Which way an order trades, and the two signs that go with it: the position moves with the side, cash
against it.
-/

namespace MarketMaker

/-- The side of an order or a trade. -/
inductive Side where
  | buy
  | sell
deriving DecidableEq, Repr

namespace Side

/-- How a position moves. -/
def sign : Side → Int64
  | buy => 1
  | sell => -1

/-- How cash moves. -/
def cashSign : Side → Float
  | buy => -1.0
  | sell => 1.0

/-- The name of a side. -/
def name : Side → String
  | buy => "BUY"
  | sell => "SELL"

end Side

end MarketMaker
