import MarketMaker.Cache.Store
import MarketMaker.Clock
import MarketMaker.Replay.Step
import MarketMaker.Settings.Validate

/-!
# Sessions

A session is a replay with a cache beside it. The cache is asked once whether it can be reached; if
not, it is never touched again. Else it is told of every tick and every trade, and what it answers
makes no difference to the replay. The cache is read only to look up a symbol's latest tick.
-/

namespace MarketMaker

/-- A replay and a cache with states `σ`. -/
structure Session (σ : Type) where
  replay : Replay
  expiry : CacheSettings
  cache : σ
  /-- Whether the cache could be reached. -/
  reachable : Bool

namespace Session

variable {σ : Type} [Cache.Store σ]

/-- Starts a session, if its settings make a meaningful run and there is room for its windows. -/
def start (s : Settings) (cache : σ) : Except Halt (Session σ) := do
  s.check.mapError .refused
  let (reachable, cache) := Cache.Store.ping cache
  let replay ← Replay.new s.engine s.quoters
  return ⟨replay, s.cache, cache, reachable⟩

/-! ## The cache -/

/-- Tells the cache of fields, whatever comes of it. -/
def remember (s : Session σ) (key : String) (fields : Cache.Fields) (seconds : UInt64) :
    Session σ :=
  { s with cache := (Cache.Store.set s.cache key fields (.ofSeconds seconds)).2 }

/-- Tells the cache of a tick, if it could be reached. -/
def rememberTick (s : Session σ) (t : Tick) : Session σ :=
  if s.reachable then
    s.remember (Cache.tickKey t.symbol) (Cache.tickFields t) s.expiry.tickExpiry
  else s

/-- Tells the cache of trades, which are numbered from `n`. -/
def rememberTrades (s : Session σ) (n : Nat) : List Trade → Session σ
  | [] => s
  | t :: ts =>
    (s.remember (Cache.tradeKey n) (Cache.tradeFields t) s.expiry.tradeExpiry).rememberTrades
      (n + 1) ts

/-- Tells the cache of all trades after the first `known`, if it could be reached. -/
def rememberSince (s : Session σ) (known : Nat) : Session σ :=
  if s.reachable then s.rememberTrades (known + 1) (s.replay.trades.extract known).toList
  else s

/-- The latest tick of a symbol as the cache knows it, if it does. -/
def cachedTick (s : Session σ) (symbol : String) : Option Tick × Session σ :=
  if s.reachable then
    let (fields, cache) := Cache.Store.get s.cache (Cache.tickKey symbol)
    let tick := match fields with
      | .ok (some fields) => (Cache.tickOfFields symbol fields).toOption
      | _ => none
    (tick, { s with cache })
  else (none, s)

/-! ## Ticks and orders -/

/-- Admits a tick, and tells the cache of it. -/
def accept (s : Session σ) (t : Tick) : Except TickFault (Session σ) :=
  (s.replay.accept t).map fun replay => { s with replay }.rememberTick t

/-- Answers a tick that was accepted. -/
def respond (s : Session σ) (t : Tick) : Session σ :=
  let known := s.replay.trades.size
  { s with replay := s.replay.respond t }.rememberSince known

/-- Notes how long the answer to a tick took. -/
def timed (s : Session σ) (took : Duration) : Session σ :=
  { s with replay := s.replay.timed took }

/-- Takes a tick, the answer to which took some time if its symbol has a desk. -/
def onTick (s : Session σ) (t : Tick) (took : Duration) : Except TickFault (Session σ) :=
  (s.accept t).map fun s => if s.replay.quotes t.symbol then (s.respond t).timed took else s

/-- Tries an order at some time. -/
def submit (s : Session σ) (o : Order) (now : Int64) :
    Except OrderFault (Option Trade) × Session σ :=
  let known := s.replay.trades.size
  let (result, replay) := s.replay.submit o now
  (result, { s with replay }.rememberSince known)

/-- Adds a desk for a quoter. -/
def addQuoter (s : Session σ) (q : Quoter) : Except Halt (Session σ) :=
  (s.replay.addQuoter q).map fun replay => { s with replay }

/-- Forgets all that happened, except what the cache was told. -/
def reset (s : Session σ) : Session σ :=
  { s with replay := s.replay.reset }

/-! ## Runs -/

section Runs

variable {m : Type → Type} [Monad m] [Clock m]

/-- Takes a tick and times the answer to it. A tick that is not accepted changes nothing. -/
@[specialize] def takeTick (s : Session σ) (t : Tick) : m (Session σ) :=
  match s.accept t with
  | .error _ => pure s
  | .ok s =>
    if s.replay.quotes t.symbol then do
      let (answered, took) ← Clock.time fun _ => s.respond t
      pure (answered.timed took)
    else pure s

/-- Takes ticks, as long as less than `budget` has passed since `begun`. -/
@[specialize] def takeTicks (budget : Option Duration) (begun : Duration) :
    List Tick → Session σ → m (Session σ)
  | [], s => pure s
  | t :: ts, s => do
    let now ← Clock.now
    if budget.any fun b => b.nanoseconds ≤ (begun.between now).nanoseconds then pure s
    else
      let s ← s.takeTick t
      takeTicks budget begun ts s

/-- Runs ticks by a clock, within a budget of time if there is one. -/
@[specialize] def runBy (s : Session σ) (ticks : List Tick) (budget : Option Duration) :
    m (Session σ) := do
  let begun ← Clock.now
  let s ← takeTicks budget begun ticks s
  let ended ← Clock.now
  pure { s with
    replay := { s.replay with elapsed := s.replay.elapsed + begun.between ended } }

/-- Runs ticks while time stands still: a budget is exhausted at once or never. -/
def run (s : Session σ) (ticks : List Tick) (budget : Option Duration) : Session σ :=
  Id.run (s.runBy ticks budget)

end Runs

end Session

end MarketMaker
