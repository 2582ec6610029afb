import MarketMaker.Cache.DatabaseRows
import MarketMaker.Cache.Fields
import MarketMaker.Cache.Location
import MarketMaker.Cache.Memory
import MarketMaker.Cache.Opening
import MarketMaker.Cache.RowFile
import MarketMaker.Cache.Rows
import MarketMaker.Cache.Store
import MarketMaker.Clock
import MarketMaker.CommandLine.Folder
import MarketMaker.CommandLine.Options
import MarketMaker.CommandLine.Program
import MarketMaker.CommandLine.RowStore
import MarketMaker.CommandLine.Surroundings
import MarketMaker.Database.Column
import MarketMaker.Database.Definition
import MarketMaker.Database.File
import MarketMaker.Database.Number
import MarketMaker.Database.Phrase
import MarketMaker.Database.Record
import MarketMaker.Database.Schema
import MarketMaker.Database.Token
import MarketMaker.Database.Tree
import MarketMaker.Decimal.Numeral
import MarketMaker.Decimal.Plain
import MarketMaker.Decimal.Shortest
import MarketMaker.Double
import MarketMaker.Duration
import MarketMaker.Error
import MarketMaker.Execution.Fill
import MarketMaker.Execution.Slippage
import MarketMaker.Feed.JsonLines
import MarketMaker.Feed.RandomWalk
import MarketMaker.Json.Basic
import MarketMaker.Json.Number
import MarketMaker.Json.Parser
import MarketMaker.Json.Printer
import MarketMaker.Json.Record
import MarketMaker.Json.Token
import MarketMaker.Ledger
import MarketMaker.Main
import MarketMaker.Market.Json
import MarketMaker.Market.Order
import MarketMaker.Market.Side
import MarketMaker.Market.Tick
import MarketMaker.Market.TopOfBook
import MarketMaker.Market.Trade
import MarketMaker.Path
import MarketMaker.Performance.Latency
import MarketMaker.Performance.Metrics
import MarketMaker.Performance.Statistics
import MarketMaker.Proofs.Atomicity
import MarketMaker.Proofs.Attempts
import MarketMaker.Proofs.Bookkeeping
import MarketMaker.Proofs.Cached
import MarketMaker.Proofs.Charging
import MarketMaker.Proofs.Covering
import MarketMaker.Proofs.Decimal.Digits
import MarketMaker.Proofs.Decimal.Layout
import MarketMaker.Proofs.Decimal.RoundTrip
import MarketMaker.Proofs.Decimal.Spelling
import MarketMaker.Proofs.Decimal.Strict
import MarketMaker.Proofs.Double.Arithmetic
import MarketMaker.Proofs.Double.Bits
import MarketMaker.Proofs.Double.Comparison
import MarketMaker.Proofs.Double.Meaning
import MarketMaker.Proofs.Double.Monotone
import MarketMaker.Proofs.Double.Multiples
import MarketMaker.Proofs.Double.Order
import MarketMaker.Proofs.Double.Packing
import MarketMaker.Proofs.Double.Quotient
import MarketMaker.Proofs.Double.Rounding
import MarketMaker.Proofs.Double.Scientific
import MarketMaker.Proofs.Double.Shifting
import MarketMaker.Proofs.Double.Vanishing
import MarketMaker.Proofs.Double.Whole
import MarketMaker.Proofs.Drawdown
import MarketMaker.Proofs.Expiring
import MarketMaker.Proofs.Figures
import MarketMaker.Proofs.FillSize
import MarketMaker.Proofs.Flatness
import MarketMaker.Proofs.InPlace
import MarketMaker.Proofs.Independence
import MarketMaker.Proofs.Interchange
import MarketMaker.Proofs.Interleaving
import MarketMaker.Proofs.Inventory
import MarketMaker.Proofs.Journal
import MarketMaker.Proofs.Json.Document
import MarketMaker.Proofs.Json.Members
import MarketMaker.Proofs.Json.Printed
import MarketMaker.Proofs.Json.Readable
import MarketMaker.Proofs.Json.Record
import MarketMaker.Proofs.Json.Text
import MarketMaker.Proofs.Json.Token
import MarketMaker.Proofs.Keeping
import MarketMaker.Proofs.LatestReturns
import MarketMaker.Proofs.Leaning
import MarketMaker.Proofs.Listing
import MarketMaker.Proofs.Loading
import MarketMaker.Proofs.Lossless
import MarketMaker.Proofs.Matching
import MarketMaker.Proofs.Mirror
import MarketMaker.Proofs.OnePass
import MarketMaker.Proofs.Operation
import MarketMaker.Proofs.Overlay
import MarketMaker.Proofs.Padding
import MarketMaker.Proofs.Prices
import MarketMaker.Proofs.Protection
import MarketMaker.Proofs.Quoting
import MarketMaker.Proofs.Reached
import MarketMaker.Proofs.Reading
import MarketMaker.Proofs.Records
import MarketMaker.Proofs.Refusals
import MarketMaker.Proofs.Registration
import MarketMaker.Proofs.Relevance
import MarketMaker.Proofs.Requirements
import MarketMaker.Proofs.Restart
import MarketMaker.Proofs.Room
import MarketMaker.Proofs.Separation
import MarketMaker.Proofs.Slippage
import MarketMaker.Proofs.Streaks
import MarketMaker.Proofs.Telling
import MarketMaker.Proofs.Text.Lines
import MarketMaker.Proofs.TextRows
import MarketMaker.Proofs.Timing
import MarketMaker.Proofs.TradeLog
import MarketMaker.Proofs.Trading
import MarketMaker.Proofs.Validation
import MarketMaker.Proofs.Walking
import MarketMaker.Proofs.WindowSums
import MarketMaker.Queue
import MarketMaker.Quoter
import MarketMaker.Random.Draw
import MarketMaker.Random.Generator
import MarketMaker.Random.KeyStream
import MarketMaker.Random.NormalTable
import MarketMaker.Replay.Desk
import MarketMaker.Replay.State
import MarketMaker.Replay.Step
import MarketMaker.Report.Basic
import MarketMaker.Report.OrderTotals
import MarketMaker.Report.UtcTime
import MarketMaker.Session
import MarketMaker.Settings.Basic
import MarketMaker.Settings.Coverage
import MarketMaker.Settings.Json
import MarketMaker.Settings.Validate
import MarketMaker.Table
import MarketMaker.Text.Blank
import MarketMaker.Text.Bytes
import MarketMaker.Text.Hexadecimal
import MarketMaker.Text.Lines
import MarketMaker.Text.Percent
import MarketMaker.Volatility.Gauge
import MarketMaker.Volatility.ReturnWindow
import MarketMaker.Word

