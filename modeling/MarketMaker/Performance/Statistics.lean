import MarketMaker.Double

/-!
# Statistics of doubles

Mean, standard deviation and percentiles, each by one fixed sequence of rounded operations: the mean
is corrected number by number, the deviation gathers squared differences from a running sum, and a
percentile lies between two neighbours in sorted order.
-/

namespace MarketMaker.Statistics

/-- Corrects the mean of `count` numbers by further ones. -/
def meanFrom (mean : Float) (count : Nat) : List Float → Float
  | [] => mean
  | x :: xs =>
    meanFrom (mean + (x - mean) / Double.ofCount (count + 1)) (count + 1) xs

/-- The mean, which is zero without numbers. -/
def mean (xs : List Float) : Float :=
  meanFrom 0.0 0 xs

/-- Gathers the squared differences of further numbers from the sum of `count` before them. -/
def differencesFrom (sum squares : Float) (count : Nat) : List Float → Float
  | [] => squares
  | x :: xs =>
    let i := Double.ofCount (count + 1)
    let sum := sum + x
    let difference := i * x - sum
    differencesFrom sum (squares + difference * difference / (i * (i - 1.0))) (count + 1) xs

/-- The standard deviation of all of a population, which is no number without numbers. -/
def deviation : List Float → Float
  | [] => 0.0 / 0.0
  | x :: xs => (differencesFrom x 0.0 1 xs / Double.ofCount (xs.length + 1)).sqrt

/-- The numbers in increasing order. -/
def sorted (xs : List Float) : List Float :=
  xs.mergeSort fun x y => x ≤ y

/-- The number below which `percent` percent of the others lie. Its rank is a fraction; between the
two ranks next to it the numbers are joined by a line. -/
def percentile (percent : Nat) (xs : List Float) : Float :=
  let ys := sorted xs
  let share := Double.ofCount percent / 100.0
  let rank := (Double.ofCount ys.length + 1.0 / 3.0) * share + 1.0 / 3.0
  let whole := rank.toUInt64.toNat
  if whole = 0 then ys.head?.getD 0.0
  else if ys.length ≤ whole then ys.getLast?.getD 0.0
  else
    let a := ys.getD (whole - 1) 0.0
    let b := ys.getD whole 0.0
    a + (rank - Double.ofCount whole) * (b - a)

end MarketMaker.Statistics
