import MarketMaker.Decimal.Plain
import MarketMaker.Duration

/-!
# What can go wrong

One type per kind of failure, one constructor per cause. Causes hold the values at fault, and
`message` puts them into words; `stated` is for a cause that some other part of a program knows only
as words.
-/

namespace MarketMaker

/-- The longest cache expiry in seconds: 365 days. -/
def longestExpiry : UInt64 := 365 * 24 * 60 * 60

/-- Settings that make no meaningful run. -/
inductive SettingsFault where
  | baseSlippage (got : Float)
  | lotSize
  | priceImprovement (got : Float)
  | fillTolerance (got : Float)
  | progressInterval
  | fixedVolatility (got : Float)
  | window (got : UInt64)
  | fallbackVolatility (got : Float)
  /-- An expiry out of range, by the name of its setting. -/
  | expiry (name : String) (got : UInt64)
  | blankSymbol
  | spread (symbol : String) (got : Float)
  | duplicateSymbol (symbol : String)
  /-- A symbol that is quoted already. -/
  | alreadyQuoted (symbol : String)
  | noFeedSymbols
  | feedVolatility
  | stated (words : String)
deriving DecidableEq

/-- What keeps a replay from being made. -/
inductive Halt where
  /-- The settings are refused. -/
  | refused (fault : SettingsFault)
  /-- A list was asked for that is longer than any can be. -/
  | noRoom
deriving DecidableEq

/-- A tick that cannot be used. -/
inductive TickFault where
  | nonFinite (symbol : String) (bid ask : Float)
  | stated (words : String)
deriving DecidableEq

/-- A cache that cannot be reached, or holds what is no tick. -/
inductive CacheFault where
  | missing (field : String)
  | malformed (field : String)
  | expiryOutOfRange (key : String) (expiry : Duration)
  /-- A store that is open for reading alone. -/
  | readOnly
  /-- A table whose rows do not say when they expire. -/
  | noExpiry
  /-- A view, which has no rows of its own. -/
  | view (name : String)
  /-- A view that is taken from itself. -/
  | circularView (name : String)
  | unknownTable (name : String)
  /-- A table whose driver is not known. -/
  | unknownDriver (name : String)
  /-- A table whose driver finds nothing of its own in the database. -/
  | driverFault (name : String)
  | damaged
  | stated (words : String)
deriving DecidableEq

/-- An order that is refused before it can fill. -/
inductive OrderFault where
  | zeroQuantity (id : UInt64)
  | limitPrice (id : UInt64) (got : Float)
  | unquoted (id : UInt64) (symbol : String)
  | stated (words : String)
deriving DecidableEq

/-- A file that cannot be read. -/
inductive FileFault where
  | notFound
  /-- A path that goes on behind what is no directory. -/
  | notDirectory
  | isDirectory
  | nameTooLong
  | notText
  | stated (words : String)
deriving DecidableEq

/-- Any failure. -/
inductive Error where
  | settings (fault : SettingsFault)
  | tick (fault : TickFault)
  | cache (fault : CacheFault)
  | order (fault : OrderFault)
  | file (fault : FileFault)
  /-- A JSON text that is malformed, or is not of the form asked for. -/
  | json
  | other (words : String)
deriving DecidableEq

/-- The cause in words. -/
def SettingsFault.message : SettingsFault → String
  | baseSlippage got =>
    "base_slippage_bps must be a non-negative number, got " ++ Plain.ofFloat got
  | lotSize => "lot_size must be positive"
  | priceImprovement got =>
    "price_improvement_increment must be positive, got " ++ Plain.ofFloat got
  | fillTolerance got => "relaxed_fill_threshold must be in [0, 1), got " ++ Plain.ofFloat got
  | progressInterval => "progress_interval must be positive"
  | fixedVolatility got => "invalid fixed volatility " ++ Plain.ofFloat got
  | window got => "rolling volatility window must be at least 2, got " ++ Plain.ofWord got
  | fallbackVolatility got => "invalid fallback volatility " ++ Plain.ofFloat got
  | expiry name got =>
    name ++ " must be in 1..=" ++ Plain.ofWord longestExpiry ++ ", got " ++ Plain.ofWord got
  | blankSymbol => "strategy symbol must not be empty"
  | spread symbol got =>
    symbol ++ ": spread_bps must be non-negative, got " ++ Plain.ofFloat got
  | duplicateSymbol symbol => "duplicate strategy for symbol " ++ symbol
  | alreadyQuoted symbol => "strategy for " ++ symbol ++ " already registered"
  | noFeedSymbols => "synthetic feed needs at least one symbol"
  | feedVolatility =>
    "invalid synthetic volatility: " ++
      "variation parameter is non-finite in (log)normal distribution"
  | stated words => words

/-- The cause in words. -/
def TickFault.message : TickFault → String
  | nonFinite symbol bid ask =>
    symbol ++ ": non-finite quote bid=" ++ Plain.ofFloat bid ++ " ask=" ++ Plain.ofFloat ask
  | stated words => words

/-- The cause in words. -/
def CacheFault.message : CacheFault → String
  | missing field => "cached tick missing field " ++ field
  | malformed field => "cached tick field " ++ field ++ " is malformed"
  | expiryOutOfRange key expiry => key ++ ": expiry " ++ expiry.text ++ " out of range"
  | readOnly => "attempt to write a readonly database"
  | noExpiry =>
    "no such column: expires_at in DELETE FROM kv WHERE expires_at <= ?1 at offset 21"
  | view name => "cannot modify " ++ name ++ " because it is a view"
  | circularView name => "view " ++ name ++ " is circularly defined"
  | unknownTable name => "no such table: main." ++ name
  | unknownDriver name => "no such module: " ++ name
  | driverFault name => "vtable constructor failed: " ++ name
  | damaged => "database disk image is malformed"
  | stated words => words

/-- The cause in words. -/
def OrderFault.message : OrderFault → String
  | zeroQuantity id => "order " ++ Plain.ofWord id ++ " has zero quantity"
  | limitPrice id got =>
    "order " ++ Plain.ofWord id ++ " has invalid limit price " ++ Plain.ofFloat got
  | unquoted id symbol => "order " ++ Plain.ofWord id ++ " for unregistered symbol " ++ symbol
  | stated words => words

/-- The cause in words. -/
def FileFault.message : FileFault → String
  | notFound => "No such file or directory (os error 2)"
  | notDirectory => "Not a directory (os error 20)"
  | isDirectory => "Is a directory (os error 21)"
  | nameTooLong => "File name too long (os error 36)"
  | notText => "stream did not contain valid UTF-8"
  | stated words => words

/-- The kind of failure and its cause, in words. -/
def Error.message : Error → String
  | settings fault => "Configuration error: " ++ fault.message
  | tick fault => "Data error: " ++ fault.message
  | cache fault => "Cache unavailable: " ++ fault.message
  | order fault => "Invalid order: " ++ fault.message
  | file fault => "I/O error: " ++ fault.message
  | json => "JSON error"
  | other words => words

end MarketMaker
