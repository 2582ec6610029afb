import MarketMaker.Queue

/-!
# Windows of returns

The latest returns of a price, with the sum of them and of their squares kept along. A price that is
not positive breaks the chain: no return is formed across it, but those already kept stay.

The numbers are of any type with the arithmetic at hand. Run on doubles, the two sums gather
rounding errors; over exact numbers they are the sums of the returns kept.
-/

namespace MarketMaker

/-- The latest returns. -/
structure ReturnWindow (α : Type) where
  /-- How many returns are kept; at least one is, whatever the size. -/
  size : Nat
  kept : Queue α
  /-- The price that the next return starts from. -/
  previous : Option α
  sum : α
  squares : α

namespace ReturnWindow

variable {α : Type}

/-- A window without returns. -/
def empty [OfNat α 0] (size : Nat) : ReturnWindow α :=
  ⟨size, .empty, none, 0, 0⟩

/-- The longest list of doubles there can be takes less than half of all addresses, eight bytes for
each. Whether the machine has that many bytes is another matter, and left out. -/
def hasRoom (size : UInt64) : Bool :=
  8 * size.toNat < UInt64.size / 2

/-- A window without returns, for which room is set aside at once. -/
def make? (size : UInt64) : Option (ReturnWindow Float) :=
  if hasRoom size then some (empty size.toNat) else none

/-- The returns kept, the oldest first. -/
def returns (w : ReturnWindow α) : List α :=
  w.kept.toList

section Arithmetic

variable [Add α] [Sub α] [Mul α]

/-- Lets the oldest return go. -/
def dropOldest (w : ReturnWindow α) : ReturnWindow α :=
  match w.kept.pop? with
  | none => w
  | some (old, rest) =>
    { w with kept := rest, sum := w.sum - old, squares := w.squares - old * old }

/-- Keeps a return more. -/
def append (w : ReturnWindow α) (r : α) : ReturnWindow α :=
  { w with kept := w.kept.push r, sum := w.sum + r, squares := w.squares + r * r }

/-- Takes a new return. A full window first lets its oldest one go. -/
def push (w : ReturnWindow α) (r : α) : ReturnWindow α :=
  (if w.size ≤ w.kept.size then w.dropOldest else w).append r

/-- Takes a price, by the return that leads to it from the price before. After a price that breaks
the chain there is none before. -/
def addPrice (breaksChain : α → Bool) (returnOf : α → α → α) (w : ReturnWindow α) (price : α) :
    ReturnWindow α :=
  if breaksChain price then { w with previous := none }
  else { w.previous.elim w (fun p => w.push (returnOf p price)) with previous := some price }

/-- The variance of `n` returns from their sum and the sum of their squares. -/
def variance [Div α] (w : ReturnWindow α) (n : α) : α :=
  w.squares / n - (w.sum / n) * (w.sum / n)

end Arithmetic

/-! ## What happens to the returns -/

@[simp] theorem returns_append [Add α] [Mul α] (w : ReturnWindow α) (r : α) :
    (w.append r).returns = w.returns ++ [r] :=
  Queue.toList_push w.kept r

@[simp] theorem returns_dropOldest [Sub α] [Mul α] (w : ReturnWindow α) :
    w.dropOldest.returns = w.returns.tail := by
  unfold dropOldest
  split
  next h => rw [returns, Queue.pop?_eq_none_iff.1 h]; rfl
  next old rest h => simp [returns, Queue.toList_of_pop? h]

theorem length_returns (w : ReturnWindow α) : w.returns.length = w.kept.size :=
  Queue.length_toList w.kept

end ReturnWindow

end MarketMaker
