import MarketMaker.Random.Generator
import MarketMaker.Random.KeyStream
import MarketMaker.Random.NormalTable

/-!
# Drawing numbers

Numbers drawn from a key stream: uniform ones in a range, and normal ones by the method of layers.
Both methods reject some words of the stream and go on to the next until one is accepted. Nothing bounds
the number of attempts: a stream that brings no word to accept would keep a draw going for ever.
-/

namespace MarketMaker.Random

section Retry

variable {α : Type}

/-- A draw that was accepted ends the drawing; one that was rejected leaves the stream behind it. -/
def attempt (draw : KeyStream → Option α × KeyStream) (s : KeyStream) : KeyStream ⊕ α × KeyStream :=
  match draw s with
  | (some x, s) => .inr (x, s)
  | (none, s) => .inl s

variable [Nonempty α] {draw : KeyStream → Option α × KeyStream} {s s' : KeyStream}

/-- Draws again and again until a draw is accepted. -/
def retry (draw : KeyStream → Option α × KeyStream) (s : KeyStream) : α × KeyStream :=
  Id.run (repeatM (attempt draw) s)

theorem retry_of_some {x : α} (accepted : draw s = (some x, s')) : retry draw s = (x, s') := by
  have ended : attempt draw s = .inr (x, s') := by rw [attempt, accepted]
  rw [retry, repeatM_eq_of_monadTail, repeatM.body, ended]
  rfl

theorem retry_of_none (rejected : draw s = (none, s')) : retry draw s = retry draw s' := by
  have goesOn : attempt draw s = .inl s' := by rw [attempt, rejected]
  rw [retry, repeatM_eq_of_monadTail, repeatM.body, goesOn]
  rfl

end Retry

/-! ## Uniform numbers -/

/-- The least and the number of the sizes drawn. -/
def leastSize : Nat := 100

/-- How many sizes there are. -/
def sizeCount : Nat := 900

/-- The high half of a product with the number of sizes is less than that number. -/
theorem high_lt (word : UInt64) : word.toNat * sizeCount / UInt64.size < sizeCount := by
  apply (Nat.div_lt_iff_lt_mul (by decide)).2
  rw [Nat.mul_comm]
  exact Nat.mul_lt_mul_of_pos_left word.toNat_lt (by decide)

theorem isSize_add {n : Nat} (less : n < sizeCount) : IsSize (leastSize + n).toUInt64 := by
  change n < 900 at less
  have number : (leastSize + n).toUInt64.toNat = 100 + n := by
    apply UInt64.toNat_ofNat_of_lt'
    change 100 + n < 18446744073709551616
    omega
  rw [IsSize, UInt64.le_iff_toNat_le, UInt64.lt_iff_toNat_lt, number]
  change 100 ≤ 100 + n ∧ 100 + n < 1000
  omega

/-- One attempt at a size: the high half of a word times the number of sizes, unless the low half
lies in the part that would favour some sizes. -/
def sizeAttempt (s : KeyStream) : Option Size × KeyStream :=
  let (word, s) := s.next
  if word.toNat * sizeCount % UInt64.size < sizeCount <<< 54 then
    (some ⟨(leastSize + word.toNat * sizeCount / UInt64.size).toUInt64, isSize_add (high_lt word)⟩, s)
  else (none, s)

/-- A size. -/
def size (s : KeyStream) : Size × KeyStream :=
  retry sizeAttempt s

/-! ## Normal numbers -/

/-- The double between `1` and `2` whose significand ends in the bits of `fraction`. -/
def fromOne (fraction : UInt64) : Float :=
  Float.ofBits (0x3FF0000000000000 ||| fraction)

/-- The double between `2` and `4` whose significand ends in the bits of `fraction`. -/
def fromTwo (fraction : UInt64) : Float :=
  Float.ofBits (0x4000000000000000 ||| fraction)

/-- Two to the power of minus fifty-three. -/
def halfUnit : Float := 1.0 / 9007199254740992.0

/-- A number between zero and one, neither of them included. -/
def betweenZeroAndOne (s : KeyStream) : Float × KeyStream :=
  let (word, s) := s.next
  (fromOne (word >>> 12) - (1.0 - halfUnit), s)

/-- Where the tail starts. -/
def tailStart : Float := 3.654152885361008796

/-- One attempt at a number of the tail. -/
def tailAttempt (s : KeyStream) : Option Float × KeyStream :=
  let (a, s) := betweenZeroAndOne s
  let (b, s) := betweenZeroAndOne s
  let x := a.log / tailStart
  let y := b.log
  if -2.0 * y < x * x then (none, s) else (some x, s)

/-- A number of the tail, on the side of `u`. -/
def tail (u : Float) (s : KeyStream) : Float × KeyStream :=
  let (x, s) := retry tailAttempt s
  (if u < 0.0 then x - tailStart else tailStart - x, s)

/-- One attempt at a normal number: a point in a layer, which is under the curve for certain if it is
left of the next layer's edge. -/
def normalAttempt (s : KeyStream) : Option Float × KeyStream :=
  let (word, s) := s.next
  let i := (word &&& 255).toNat
  let u := fromTwo (word >>> 12) - 3.0
  let x := u * edges.getD i 0.0
  let edge := edges.getD (i + 1) 0.0
  if x.abs < edge then (some x, s)
  else if i = 0 then
    let (x, s) := tail u s
    (some x, s)
  else
    let (word, s) := s.next
    let unit := (word >>> 11).toFloat * halfUnit
    let low := heights.getD (i + 1) 0.0
    if low + (heights.getD i 0.0 - low) * unit < (-x * x / 2.0).exp then (some x, s)
    else (none, s)

/-- A number of the normal distribution about zero with deviation one. -/
def normal (s : KeyStream) : Float × KeyStream :=
  retry normalAttempt s

instance : Generator KeyStream where
  ofSeed := .ofSeed
  normal := normal
  size := size

end MarketMaker.Random
