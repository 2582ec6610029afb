import MarketMaker.Error
import MarketMaker.Json.Parser
import MarketMaker.Json.Printer
import MarketMaker.Json.Record
import MarketMaker.Settings.Basic

/-!
# Settings as JSON

Settings are written in full. When read, whatever is left out takes its default; only a quoter's
symbol, and the mode of a volatility with the members of that mode, must be there.
-/

namespace MarketMaker

namespace VolatilitySource

/-- A source, with the name of its mode. -/
def toJson : VolatilitySource → Json
  | fixed value => .record [("mode", .text "fixed"), ("value", .ofFloat value)]
  | rolling window fallback => .record
    [("mode", .text "rolling"), ("window", .ofWord window), ("fallback", .ofFloat fallback)]

/-- Reads the members that a mode needs. -/
def ofMembers? (members : List (String × Json)) (mode : String) : Option VolatilitySource :=
  let member (name : String) := (Json.member? members name).bind id
  if mode = "fixed" then do
    return .fixed (← (← member "value").asFloat?)
  else if mode = "rolling" then do
    return .rolling (← (← member "window").asWord?) (← (← member "fallback").asFloat?)
  else none

/-- Reads a source: an object with its mode among the members, or an array that starts with the
mode and holds exactly what the mode needs. `level` is the number of arrays and objects around it. -/
def ofJson? (level : Nat) (j : Json) : Option VolatilitySource :=
  if j.isReadable (Json.depthLimit - level) then
    match j with
    | .object members => do
      let members ← Json.named? members
      let mode ← (← (Json.member? members "mode").bind id).asText?
      ofMembers? members mode
    | .array [mode, value] => do
      if (← mode.asText?) = "fixed" then return .fixed (← value.asFloat?) else none
    | .array [mode, window, fallback] => do
      if (← mode.asText?) = "rolling" then
        return .rolling (← window.asWord?) (← fallback.asFloat?)
      else none
    | _ => none
  else none

end VolatilitySource

namespace EngineSettings

/-- The names of the members, in their order. -/
def names : List String :=
  ["base_slippage_bps", "lot_size", "price_improvement_increment", "relaxed_fill_threshold",
    "volatility", "progress_interval"]

/-- All members. -/
def toJson (s : EngineSettings) : Json :=
  .record (names.zip
    [.ofFloat s.baseSlippage, .ofWord s.lotSize, .ofFloat s.priceImprovement,
      .ofFloat s.fillTolerance, s.volatility.toJson, .ofWord s.progressInterval])

/-- Reads the engine's settings, with `level` arrays and objects around them. -/
def ofJson? (level : Nat) (j : Json) : Option EngineSettings := do
  let standard : EngineSettings := {}
  match ← j.slots? names with
  | [baseSlippage, lotSize, priceImprovement, fillTolerance, volatility, progressInterval] =>
    return {
      baseSlippage := ← Json.withDefault standard.baseSlippage Json.asFloat? baseSlippage
      lotSize := ← Json.withDefault standard.lotSize Json.asWord? lotSize
      priceImprovement :=
        ← Json.withDefault standard.priceImprovement Json.asFloat? priceImprovement
      fillTolerance := ← Json.withDefault standard.fillTolerance Json.asFloat? fillTolerance
      volatility :=
        ← Json.withDefault standard.volatility (VolatilitySource.ofJson? (level + 1)) volatility
      progressInterval :=
        ← Json.withDefault standard.progressInterval Json.asWord? progressInterval }
  | _ => none

end EngineSettings

namespace CacheSettings

/-- The names of the members, in their order. -/
def names : List String := ["tick_ttl_secs", "trade_ttl_secs"]

/-- All members. -/
def toJson (s : CacheSettings) : Json :=
  .record (names.zip [.ofWord s.tickExpiry, .ofWord s.tradeExpiry])

/-- Reads the cache's settings. -/
def ofJson? (j : Json) : Option CacheSettings := do
  let standard : CacheSettings := {}
  match ← j.slots? names with
  | [tickExpiry, tradeExpiry] =>
    return {
      tickExpiry := ← Json.withDefault standard.tickExpiry Json.asWord? tickExpiry
      tradeExpiry := ← Json.withDefault standard.tradeExpiry Json.asWord? tradeExpiry }
  | _ => none

end CacheSettings

namespace QuoterSettings

/-- The names of the members, in their order. -/
def names : List String := ["symbol", "spread_bps", "max_position", "inventory_target"]

/-- All members. -/
def toJson (s : QuoterSettings) : Json :=
  .record (names.zip
    [.text s.symbol, .ofFloat s.spread, .ofSigned s.maxPosition, .ofSigned s.inventoryTarget])

/-- Reads a quoter's settings. -/
def ofJson? (j : Json) : Option QuoterSettings := do
  match ← j.slots? names with
  | [symbol, spread, maxPosition, inventoryTarget] =>
    let symbol ← Json.required Json.asText? symbol
    let standard : QuoterSettings := { symbol }
    return {
      symbol
      spread := ← Json.withDefault standard.spread Json.asFloat? spread
      maxPosition := ← Json.withDefault standard.maxPosition Json.asSigned? maxPosition
      inventoryTarget :=
        ← Json.withDefault standard.inventoryTarget Json.asSigned? inventoryTarget }
  | _ => none

end QuoterSettings

namespace Settings

/-- The names of the members, in their order. -/
def names : List String := ["engine", "cache", "strategies"]

/-- All members. -/
def toJson (s : Settings) : Json :=
  .record (names.zip
    [s.engine.toJson, s.cache.toJson, .array (s.quoters.map QuoterSettings.toJson)])

/-- Reads settings. -/
def ofJson? (j : Json) : Option Settings := do
  match ← j.slots? names with
  | [engine, cache, quoters] =>
    return {
      engine := ← Json.withDefault {} (EngineSettings.ofJson? 1) engine
      cache := ← Json.withDefault {} CacheSettings.ofJson? cache
      quoters := ← Json.withDefault [] (Json.asList? QuoterSettings.ofJson?) quoters }
  | _ => none

/-- Reads settings from a JSON text. -/
def parse (text : String) : Except Error Settings :=
  match (Json.parse? text).bind ofJson? with
  | some s => .ok s
  | none => .error .json

end Settings

end MarketMaker
