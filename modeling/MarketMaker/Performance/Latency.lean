import MarketMaker.Duration
import MarketMaker.Json.Printer
import MarketMaker.Performance.Statistics

/-!
# Latency

How long each tick took, and what that comes to over a run. Nothing in a run depends on it.
-/

namespace MarketMaker

/-- What a run's latencies come to, times in microseconds. -/
structure LatencySummary where
  /-- Orders in a second. -/
  throughput : Float
  mean : Float
  p50 : Float
  p90 : Float
  p99 : Float
  max : Float
deriving DecidableEq

/-- The summary as an object. -/
def LatencySummary.toJson (s : LatencySummary) : Json :=
  .record [("throughput_ops_sec", .ofFloat s.throughput), ("avg_us", .ofFloat s.mean),
    ("p50_us", .ofFloat s.p50), ("p90_us", .ofFloat s.p90), ("p99_us", .ofFloat s.p99),
    ("max_us", .ofFloat s.max)]

/-- How long ticks took, in microseconds. -/
structure Latency where
  samples : Array Float
deriving DecidableEq

namespace Latency

/-- No samples. -/
def empty : Latency := ⟨#[]⟩

/-- One sample more. -/
def record (l : Latency) (took : Duration) : Latency :=
  ⟨l.samples.push (took.toSeconds * 1e6)⟩

/-- The number of samples. -/
def size (l : Latency) : Nat := l.samples.size

/-- The mean in microseconds, zero without samples. -/
def mean (l : Latency) : Float :=
  Statistics.mean l.samples.toList

/-- The mean in milliseconds. -/
def meanMillis (l : Latency) : Float :=
  l.mean / 1000.0

/-- How many of something there were in a second, zero if no time passed. -/
def perSecond (count : UInt64) (elapsed : Duration) : Float :=
  if elapsed.toSeconds > 0.0 then count.toFloat / elapsed.toSeconds else 0.0

/-- The summary of a run with some orders in some time. -/
def summary (l : Latency) (orders : UInt64) (elapsed : Duration) : LatencySummary :=
  let throughput := perSecond orders elapsed
  let xs := l.samples.toList
  if xs.isEmpty then ⟨throughput, 0.0, 0.0, 0.0, 0.0, 0.0⟩
  else
    { throughput
      mean := l.mean
      p50 := Statistics.percentile 50 xs
      p90 := Statistics.percentile 90 xs
      p99 := Statistics.percentile 99 xs
      max := xs.foldl Double.larger 0.0 }

end Latency

end MarketMaker
