import MarketMaker.Duration

/-!
# Clocks

A clock tells the time since some moment, never running backwards, and times how long it takes to work
something out. What is worked out does not hang on the clock. Where nothing has effects, time stands
still.
-/

namespace MarketMaker

/-- What can be asked of a clock. -/
class Clock (m : Type → Type) where
  /-- The time. -/
  now : m Duration
  /-- Works something out, and says how long that took. -/
  time {α : Type} : (Unit → α) → m (α × Duration)

instance : Clock Id where
  now := Duration.zero
  time work := (work (), Duration.zero)

/-- What may fail for reasons of its own has the same clock. -/
instance {ε : Type} {m : Type → Type} [Monad m] [Clock m] : Clock (ExceptT ε m) where
  now := ExceptT.lift Clock.now
  time work := ExceptT.lift (Clock.time work)

end MarketMaker
