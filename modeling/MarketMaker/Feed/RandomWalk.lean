import MarketMaker.Double
import MarketMaker.Error
import MarketMaker.Json.Parser
import MarketMaker.Json.Printer
import MarketMaker.Json.Record
import MarketMaker.Market.Tick
import MarketMaker.Random.Generator

/-!
# Ticks from random walks

A feed of made-up ticks. Each symbol's price takes a normal step in proportion to itself, but never
falls below a floor; the quote is a fixed fraction of the price wide. Symbols take turns, and the
ticks of one round share one time. With a source of random numbers, a seed fixes the whole feed.
-/

namespace MarketMaker.Feed

/-- What a random feed is made of. -/
structure WalkSettings where
  symbols : List String := ["AAPL", "GOOGL", "MSFT"]
  /-- The number of rounds: how many ticks each symbol has. -/
  rounds : UInt64 := 20000
  seed : UInt64 := 42
  /-- The time of the first round. -/
  start : Int64 := 1700000000000000000
  /-- The time from round to round. -/
  step : Int64 := 1000000
  /-- The deviation of a step, relative to the price. -/
  volatility : Float := 0.02
  /-- The width of a quote, relative to the price. -/
  spread : Float := 0.002
  floor : Float := 50.0
deriving DecidableEq

namespace WalkSettings

/-- The names of the members, in their order. -/
def names : List String :=
  ["symbols", "ticks_per_symbol", "seed", "start_ts", "step_ns", "volatility",
    "spread_fraction", "price_floor"]

/-- All members. -/
def members (s : WalkSettings) : List (String × Json) :=
  names.zip
    [.array (s.symbols.map Json.text), .ofWord s.rounds, .ofWord s.seed, .ofSigned s.start,
      .ofSigned s.step, .ofFloat s.volatility, .ofFloat s.spread, .ofFloat s.floor]

/-- The settings as an object. -/
def toJson (s : WalkSettings) : Json := .record s.members

/-- Reads settings; all members must be there. -/
def ofJson? (j : Json) : Option WalkSettings := do
  match ← j.slots? names with
  | [symbols, rounds, seed, start, step, volatility, spread, floor] =>
    return {
      symbols := ← Json.required (Json.asList? Json.asText?) symbols
      rounds := ← Json.required Json.asWord? rounds
      seed := ← Json.required Json.asWord? seed
      start := ← Json.required Json.asSigned? start
      step := ← Json.required Json.asSigned? step
      volatility := ← Json.required Json.asFloat? volatility
      spread := ← Json.required Json.asFloat? spread
      floor := ← Json.required Json.asFloat? floor }
  | _ => none

/-- The first fault: there must be a symbol, and a finite volatility. -/
def check (s : WalkSettings) : Except SettingsFault Unit :=
  if s.symbols.isEmpty then .error .noFeedSymbols
  else if s.volatility.isFinite then .ok ()
  else .error .feedVolatility

/-- How many ticks the feed has. -/
def total (s : WalkSettings) : UInt64 :=
  s.rounds * s.symbols.length.toUInt64

end WalkSettings

/-- A random feed on its way, with its source of random numbers. -/
structure Walk (γ : Type) where
  settings : WalkSettings
  source : γ
  /-- The price of each symbol. -/
  prices : Array Float
  /-- The round of the next tick. -/
  round : Nat
  /-- The place of the next tick's symbol. -/
  turn : Nat

namespace Walk

variable {γ : Type} [Random.Generator γ]

/-- The price that the symbol in some place starts from. -/
def startPrice (place : Nat) : Float :=
  100.0 + Double.ofCount place * 5.0

/-- The start of a feed whose source of random numbers has states `γ`. -/
def start (γ : Type) [Random.Generator γ] (s : WalkSettings) : Walk γ where
  settings := s
  source := Random.Generator.ofSeed s.seed
  prices := ((List.range s.symbols.length).map startPrice).toArray
  round := 0
  turn := 0

/-- A price after a step, not below the floor. -/
def stepped (s : WalkSettings) (price normal : Float) : Float :=
  let step := 0.0 + s.volatility * normal
  Double.larger (price + step * price) s.floor

/-- The time of a round. -/
def timeOf (s : WalkSettings) (round : Nat) : Int64 :=
  s.start + round.toUInt64.toInt64 * s.step

/-- Passes the turn on to the next symbol, after the last one to the first of the next round. -/
def passTurn (w : Walk γ) : Walk γ :=
  if w.turn + 1 = w.settings.symbols.length then { w with turn := 0, round := w.round + 1 }
  else { w with turn := w.turn + 1 }

/-- The next tick, unless all rounds are over. -/
def next? (w : Walk γ) : Option (Tick × Walk γ) :=
  if w.round < w.settings.rounds.toNat then
    let (normal, source) := Random.Generator.normal w.source
    let (bidSize, source) := Random.Generator.size source
    let (askSize, source) := Random.Generator.size source
    let price := stepped w.settings (w.prices.getD w.turn 0.0) normal
    let half := price * w.settings.spread / 2.0
    let tick : Tick := {
      symbol := w.settings.symbols.getD w.turn ""
      bid := price - half
      ask := price + half
      bidSize := bidSize.1
      askSize := askSize.1
      timestamp := timeOf w.settings w.round }
    let w := { w with source := source, prices := w.prices.setIfInBounds w.turn price }
    some (tick, w.passTurn)
  else none

/-- At most `n` further ticks, behind those found so far. -/
def collect (found : Array Tick) : (n : Nat) → Walk γ → Array Tick
  | 0, _ => found
  | n + 1, w =>
    match w.next? with
    | none => found
    | some (t, w) => collect (found.push t) n w

/-- At most `n` ticks of a feed. -/
def take (n : Nat) (w : Walk γ) : List Tick :=
  (collect #[] n w).toList

end Walk

namespace WalkSettings

/-- The start of a feed, if its settings have no fault. -/
def walk {γ : Type} [Random.Generator γ] (s : WalkSettings) : Except SettingsFault (Walk γ) :=
  s.check.map fun _ => .start γ s

/-- All ticks of a feed whose source of random numbers has states `γ`. -/
def ticks (γ : Type) [Random.Generator γ] (s : WalkSettings) : Except SettingsFault (List Tick) :=
  s.walk.map fun w : Walk γ => w.take (s.rounds.toNat * s.symbols.length)

end WalkSettings

end MarketMaker.Feed
