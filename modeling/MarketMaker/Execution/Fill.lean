import MarketMaker.Double
import MarketMaker.Market.Order
import MarketMaker.Market.TopOfBook

/-!
# Fills

An order trades against the opposite touch of its symbol's book, in full or not at all: a purchase
against the ask, a sale against the bid. A market order fills at the touch. A limit order that
reaches the touch fills there (`crossed`). One that stays short of it by no more than a tolerance, a
fraction of the touch, fills too, at its own limit (`relaxed`): it stands for a quote about to be
reached.
-/

namespace MarketMaker

/-- How an order matched. -/
inductive FillKind where
  | market
  | crossed
  | relaxed
deriving DecidableEq, Repr

/-- The name of a kind of fill. -/
def FillKind.name : FillKind → String
  | market => "Market"
  | crossed => "Crossed"
  | relaxed => "Relaxed"

/-- The price an order matched at, before slippage. -/
structure Fill where
  price : Float
  kind : FillKind
deriving DecidableEq

namespace Fill

/-- The tolerance unless another is set. -/
def standardTolerance : Float := 0.001

/-- Matches a purchase with the ask. -/
def buy? (tolerance : Float) (o : Order) (ask : Float) : Option Fill :=
  if !(ask > 0.0 && ask.isFinite) then none
  else match o.kind with
    | .market => some ⟨ask, .market⟩
    | .limit =>
      if o.price ≥ ask then some ⟨Double.smaller o.price ask, .crossed⟩
      else if o.price ≥ ask * (1.0 - tolerance) then some ⟨o.price, .relaxed⟩
      else none

/-- Matches a sale with the bid. -/
def sell? (tolerance : Float) (o : Order) (bid : Float) : Option Fill :=
  if bid ≤ 0.0 then none
  else match o.kind with
    | .market => some ⟨bid, .market⟩
    | .limit =>
      if o.price ≤ bid then some ⟨Double.larger o.price bid, .crossed⟩
      else if o.price ≤ bid * (1.0 + tolerance) then some ⟨o.price, .relaxed⟩
      else none

/-- Matches an order with the opposite touch. -/
def match? (tolerance : Float) (o : Order) (book : TopOfBook) : Option Fill :=
  match o.side with
  | .buy => buy? tolerance o book.ask.price
  | .sell => sell? tolerance o book.bid.price

end Fill

/-- The price that an order of a side trades against. -/
def TopOfBook.touch (b : TopOfBook) : Side → Float
  | .buy => b.ask.price
  | .sell => b.bid.price

end MarketMaker
