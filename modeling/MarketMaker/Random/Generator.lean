/-!
# Sources of random numbers

What a random feed asks of its source of random numbers: a start from a seed, numbers of the normal
distribution and sizes. Each number comes with the state of the source behind it.
-/

namespace MarketMaker.Random

/-- A size from 100 to 999. -/
def IsSize (n : UInt64) : Prop :=
  100 ≤ n ∧ n < 1000

/-- The sizes from 100 to 999. -/
abbrev Size := {n : UInt64 // IsSize n}

instance : Nonempty Size := ⟨100, by decide, by decide⟩

/-- What a random feed asks of a source of random numbers with states `γ`. -/
class Generator (γ : Type) where
  /-- The start that a seed fixes. -/
  ofSeed : UInt64 → γ
  /-- A number of the normal distribution about zero with deviation one. -/
  normal : γ → Float × γ
  /-- A size. -/
  size : γ → Size × γ

end MarketMaker.Random
